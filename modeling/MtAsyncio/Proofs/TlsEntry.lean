/-
Module: MtAsyncio.Proofs.TlsEntry
Purpose: Who is inside of the `SSLProtocol` of an upgraded connection, and in
  which order it is called.  Every entry but those of `_begin` and of the end of
  `start_tls` is made under the connection's lock, so that two entries can only
  overlap around one of these two.
Trusted boundary: none
Main exports: Serialized, InOrder, SingleEntered, enters_in_order,
  entries_race
-/
import MtAsyncio.Model.Tls

namespace MtAsyncio.Tls

open Lib (Machine RLock)

variable {T : Type} [DecidableEq T] {s s' : State T} {t u : T} {a : Act T}

/-! ## What is done without the lock -/

/-- `_begin` and the end of `start_tls` make these entries without the lock. -/
def Entry.unlocked : Entry → Bool
  | .connectionMade | .getAppTransport => true
  | _ => false

/-- The operations that stand outside of a `with self._lock:`. -/
def Op.unlocked : Op → Bool
  | .ssl e => e.unlocked
  | .claimTest | .callSoon _ | .cancelBegin | .await | .settle _ => true
  | _ => false

/-- The statement is only right under the lock. -/
def Stmt.needsLock : Stmt → Bool
  | .locked _ => false
  | .bare o => !o.unlocked

def NeedsLock (stmts : List Stmt) : Prop :=
  ∃ stmt ∈ stmts, stmt.needsLock = true

instance (stmts : List Stmt) : Decidable (NeedsLock stmts) :=
  inferInstanceAs (Decidable (∃ stmt ∈ stmts, stmt.needsLock = true))

/-- Data or the end of the stream is about to reach a protocol. -/
def Stmt.delivers : Stmt → Bool
  | .locked (.ssl e) | .locked (.protocol e) | .bare (.ssl e) | .bare (.protocol e) => e.delivers
  | _ => false

def Due (stmts : List Stmt) : Prop :=
  ∃ stmt ∈ stmts, stmt.delivers = true

instance (stmts : List Stmt) : Decidable (Due stmts) :=
  inferInstanceAs (Decidable (∃ stmt ∈ stmts, stmt.delivers = true))

/-- One of the frames is a `with self._lock:`. -/
def Holds (stack : List Frame) : Prop :=
  ∃ f ∈ stack, f.bracket = .lock

/-- Every entry and every statement that is only right under the lock has a
`with self._lock:` around it. -/
def Covered : List Frame → Prop
  | [] => True
  | f :: below =>
      (∀ e, f.bracket = .entry e → e.unlocked = false → Holds below) ∧
      (NeedsLock f.rest → Holds (f :: below)) ∧ Covered below

def lockCount (stack : List Frame) : Nat :=
  stack.countP fun f => f.bracket = .lock

theorem lockCount_ne_zero {stack : List Frame} : lockCount stack ≠ 0 ↔ Holds stack := by
  rw [lockCount, ← Nat.pos_iff_ne_zero, List.countP_pos_iff]
  simp only [Holds, decide_eq_true_eq]

theorem holds_cons {f : Frame} {below : List Frame} :
    Holds (f :: below) ↔ f.bracket = .lock ∨ Holds below := by
  simp only [Holds, List.mem_cons, exists_eq_or_imp]

theorem lockCount_cons (f : Frame) (below : List Frame) :
    lockCount (f :: below) = lockCount below + if f.bracket = .lock then 1 else 0 := by
  simp only [lockCount, List.countP_cons, decide_eq_true_eq]

theorem Holds.rest {b : Bracket} {before : List Stmt} {below : List Frame}
    (holds : Holds (⟨b, before⟩ :: below)) (after : List Stmt) : Holds (⟨b, after⟩ :: below) := by
  obtain isLock | holds := holds_cons.mp holds
  · exact holds_cons.mpr (.inl isLock)
  · exact holds_cons.mpr (.inr holds)

/-- The innermost frame goes on with statements that need no more than before. -/
theorem Covered.rest {b : Bracket} {before after : List Stmt} {below : List Frame}
    (covered : Covered (⟨b, before⟩ :: below)) (free : NeedsLock after → NeedsLock before) :
    Covered (⟨b, after⟩ :: below) := by
  refine ⟨covered.1, ?_, covered.2.2⟩
  intro needs
  exact (covered.2.1 (free needs)).rest after

theorem NeedsLock.tail {stmt : Stmt} {after : List Stmt} (needs : NeedsLock after) :
    NeedsLock (stmt :: after) := by
  obtain ⟨later, member, needs⟩ := needs
  exact ⟨later, List.mem_cons_of_mem _ member, needs⟩

theorem Due.tail {stmt : Stmt} {after : List Stmt} (due : Due after) : Due (stmt :: after) := by
  obtain ⟨later, member, delivers⟩ := due
  exact ⟨later, List.mem_cons_of_mem _ member, delivers⟩

/-- What a thread may start on. -/
def Harmless (body : List Stmt) : Prop :=
  ¬NeedsLock body ∧ ¬Due body

instance (body : List Stmt) : Decidable (Harmless body) :=
  inferInstanceAs (Decidable (¬NeedsLock body ∧ ¬Due body))

theorem Handle.harmless (h : Handle) : Harmless h.body := by
  cases h <;> decide

theorem Call.harmless (c : Call) : Harmless c.body := by
  cases c <;>
    simp [Harmless, NeedsLock, Due, Call.body, Stmt.needsLock, Op.unlocked, Stmt.delivers,
      Entry.delivers]

theorem afterWaiter_harmless (ok : Bool) : Harmless (afterWaiter ok) := by
  cases ok <;> decide

omit [DecidableEq T] in
/-- An operation that may stand outside of the lock leads to nothing that may
not. -/
theorem perform_unlocked {choice : Choice} {o : Op} (free : o.unlocked = true) :
    (perform s choice o).2 = [] := by
  cases o <;> first | rfl | cases free

/-! ## What a step does to the threads -/

/-- The operation that a thread is at. -/
def State.next (s : State T) (t : T) : Option Op :=
  match s.stack t with
  | ⟨_, .bare o :: _⟩ :: _ => some o
  | _ => none

/-- The thread that makes an entry with a step, and the entry. -/
def State.entering (s : State T) : Act T → Option (T × Entry)
  | .go t _ => ((s.next t).bind s.enters).map fun e => (t, e)
  | _ => none

/-- The step reads data, or the end of the stream, for the `SSLProtocol`. -/
def State.receives (s : State T) : Act T → Bool
  | .go t choice =>
      s.next t = some .receive && (choice.received = .data || choice.received = .eof)
  | _ => false

/-- What a step does to the stack of the thread that moves, to the lock and to
the history. -/
inductive Move (s s' : State T) (a : Act T) (t : T) : Prop where
  /-- an idle thread starts on a body -/
  | begins (body : List Stmt) (idle : s.stack t = []) (harmless : Harmless body)
      (stack : s'.stack = Function.update s.stack t [⟨.call, body⟩])
      (lock : s'.lock = s.lock) (log : s'.log = s.log)
  | leaves (f : Frame) (below : List Frame) (here : s.stack t = f :: below)
      (noLock : f.bracket ≠ .lock) (stack : s'.stack = Function.update s.stack t below)
      (lock : s'.lock = s.lock) (log : s'.log = s.log)
  | releases (below : List Frame) (here : s.stack t = ⟨.lock, []⟩ :: below)
      (stack : s'.stack = Function.update s.stack t below)
      (lock : s.lock.release t = some s'.lock) (log : s'.log = s.log)
  | acquires (b : Bracket) (o : Op) (after : List Stmt) (below : List Frame)
      (here : s.stack t = ⟨b, .locked o :: after⟩ :: below)
      (stack : s'.stack = Function.update s.stack t
        (⟨.lock, [.bare o]⟩ :: ⟨b, after⟩ :: below))
      (lock : s.lock.acquire t = some s'.lock) (log : s'.log = s.log)
  | enters (b : Bracket) (o : Op) (after : List Stmt) (below : List Frame) (e : Entry)
      (here : s.stack t = ⟨b, .bare o :: after⟩ :: below) (entry : s.enters o = some e)
      (entering : s.entering a = some (t, e))
      (stack : s'.stack = Function.update s.stack t (⟨.entry e, []⟩ :: ⟨b, after⟩ :: below))
      (lock : s'.lock = s.lock) (log : s'.log = s.log ++ [e])
  /-- the innermost frame goes on with other statements -/
  | goesOn (b : Bracket) (before after : List Stmt) (below : List Frame)
      (here : s.stack t = ⟨b, before⟩ :: below) (free : NeedsLock after → NeedsLock before)
      (due : Due after → Due before ∨ s.receives a = true)
      (stack : s'.stack = Function.update s.stack t (⟨b, after⟩ :: below))
      (lock : s'.lock = s.lock) (log : s'.log = s.log)

/-- Neither the lock nor the threads differ. -/
structure SameThreads (s r : State T) : Prop where
  stack : r.stack = s.stack
  lock : r.lock = s.lock
  log : r.log = s.log

omit [DecidableEq T] in
theorem perform_sameThreads (s : State T) (choice : Choice) (o : Op) :
    SameThreads s (perform s choice o).1 := by
  cases o <;> simp only [perform, State.close, State.forceClose, State.callSoon] <;>
    (repeat' split) <;> exact ⟨rfl, rfl, rfl⟩

theorem mem_of_mem_rest {choice : Choice} {o : Op} {after : List Stmt} {stmt : Stmt}
    (member : stmt ∈ rest choice after o) : stmt ∈ after := by
  cases o with
  | claimTest =>
      simp only [rest] at member
      split at member
      · cases member
      · exact member
  | _ => exact member

omit [DecidableEq T] in
theorem NeedsLock.of_perform (s : State T) (choice : Choice) {o : Op} {after : List Stmt}
    (needs : NeedsLock ((perform s choice o).2 ++ rest choice after o)) :
    NeedsLock (.bare o :: after) := by
  by_cases free : o.unlocked = true
  · obtain ⟨stmt, member, needs⟩ := needs
    rw [perform_unlocked free, List.nil_append] at member
    exact NeedsLock.tail ⟨stmt, mem_of_mem_rest member, needs⟩
  · exact ⟨.bare o, List.mem_cons_self, by simpa [Stmt.needsLock] using free⟩

omit [DecidableEq T] in
theorem perform_due {choice : Choice} {o : Op} (due : Due (perform s choice o).2) :
    o = .receive ∧ (choice.received = .data ∨ choice.received = .eof) := by
  cases o with
  | receive =>
      refine ⟨rfl, ?_⟩
      cases received : choice.received with
      | data => exact .inl rfl
      | eof => exact .inr rfl
      | nothing | failed =>
          simp only [perform, received] at due
          exact absurd due (by decide)
  | write | readReadyCb | afterEof | writeImpl | written | callConnectionLost =>
      -- whichever way they go, the protocol gets no data from what follows
      simp only [perform] at due
      repeat' split at due
      all_goals simp [Due, Stmt.delivers, Entry.delivers] at due
  | _ =>
      obtain ⟨_, member, -⟩ := due
      cases member

omit [DecidableEq T] in
/-- Only what is read from the socket gets due. -/
theorem Due.of_perform (s : State T) (choice : Choice) {o : Op} {after : List Stmt}
    (due : Due ((perform s choice o).2 ++ rest choice after o)) :
    Due (.bare o :: after) ∨
      (o = .receive ∧ (choice.received = .data ∨ choice.received = .eof)) := by
  obtain ⟨stmt, member, delivers⟩ := due
  obtain now | later := List.mem_append.mp member
  · exact .inr (perform_due ⟨stmt, now, delivers⟩)
  · exact .inl (Due.tail ⟨stmt, mem_of_mem_rest later, delivers⟩)

theorem begins_move {r : State T} {body : List Stmt} (taken : begins r t body = some s')
    (harmless : Harmless body) (same : SameThreads s r) : Move s s' a t := by
  simp only [begins] at taken
  split at taken
  · rename_i idle
    cases taken
    refine .begins body (same.stack ▸ idle) harmless ?_ same.lock same.log
    simp only [State.setStack, same.stack]
  · cases taken

theorem go_move {choice : Choice} (taken : go s t choice = some s') :
    Move s s' (.go t choice) t := by
  simp only [go] at taken
  split at taken
  · cases taken
  · rename_i below here
    obtain ⟨lock, given, rfl⟩ := Option.map_eq_some_iff.mp taken
    exact .releases below here rfl given rfl
  · rename_i below here
    cases taken
    exact .leaves _ below here (by rintro ⟨⟩) rfl rfl rfl
  · rename_i below here
    cases taken
    exact .leaves _ below here (by rintro ⟨⟩) rfl rfl rfl
  · rename_i bracket o after below here
    obtain ⟨lock, given, rfl⟩ := Option.map_eq_some_iff.mp taken
    exact .acquires bracket o after below here rfl given rfl
  · rename_i bracket o after below here
    split at taken
    · rename_i e entry
      cases taken
      refine .enters bracket o after below e here entry ?_ rfl rfl rfl
      simp only [State.entering, State.next, here, Option.bind_some, entry, Option.map_some]
    · cases taken
      have same := perform_sameThreads s choice o
      refine .goesOn bracket _ _ below here (.of_perform s choice) ?_ ?_ same.lock same.log
      · intro due
        refine (Due.of_perform s choice due).imp_right ?_
        rintro ⟨rfl, received⟩
        simp only [State.receives, State.next, here, decide_true, Bool.true_and,
          Bool.or_eq_true, decide_eq_true_eq]
        exact received
      · simp only [State.setStack, same.stack]

/-- A step moves one thread, or none. -/
theorem step_move (taken : step s a = some s') : (∃ t, Move s s' a t) ∨ SameThreads s s' := by
  cases a with
  | go t choice => exact .inl ⟨t, go_move taken⟩
  | inner t c =>
      simp only [step] at taken
      split at taken
      · rename_i e below here
        split at taken
        · cases taken
          refine .inl ⟨t, .goesOn _ _ c.body below here ?_ ?_ rfl rfl rfl⟩
          · intro needs
            exact absurd needs c.harmless.1
          · intro due
            exact absurd due c.harmless.2
        · cases taken
      · cases taken
  | startTls t =>
      simp only [step] at taken
      split at taken
      · exact .inl ⟨t, begins_move taken (by decide) ⟨rfl, rfl, rfl⟩⟩
      · cases taken
  | resume t cancelled =>
      simp only [step] at taken
      split at taken
      · split at taken
        · exact .inl ⟨t, begins_move taken (afterWaiter_harmless _) ⟨rfl, rfl, rfl⟩⟩
        · split at taken
          · exact .inl ⟨t, begins_move taken (afterWaiter_harmless _) ⟨rfl, rfl, rfl⟩⟩
          · cases taken
      · cases taken
  | app t c =>
      simp only [step] at taken
      split at taken
      · exact .inl ⟨t, begins_move taken c.harmless ⟨rfl, rfl, rfl⟩⟩
      · cases taken
  | run t h =>
      simp only [step] at taken
      split at taken
      · exact .inl ⟨t, begins_move taken h.harmless ⟨rfl, rfl, rfl⟩⟩
      · cases taken
  | readable t =>
      simp only [step] at taken
      split at taken
      · exact .inl ⟨t, begins_move taken (by decide) ⟨rfl, rfl, rfl⟩⟩
      · cases taken
  | writable t =>
      simp only [step] at taken
      split at taken
      · exact .inl ⟨t, begins_move taken (by decide) ⟨rfl, rfl, rfl⟩⟩
      · cases taken
  | releaseClaim =>
      simp only [step] at taken
      split at taken
      · cases taken
        right
        split <;> exact ⟨rfl, rfl, rfl⟩
      · cases taken

/-! ## The lock is where the code takes it -/

/-- Every thread keeps to the lock's discipline and holds the lock as often as
it is inside of a `with self._lock:`. -/
structure Disciplined (s : State T) : Prop where
  covered : ∀ t, Covered (s.stack t)
  counted : ∀ t, s.lock.count t = lockCount (s.stack t)

theorem Disciplined.of_update (disciplined : Disciplined s) {stack : List Frame}
    (updated : s'.stack = Function.update s.stack t stack) (covered : Covered stack)
    (mine : s'.lock.count t = lockCount stack)
    (others : ∀ u, u ≠ t → s'.lock.count u = s.lock.count u) : Disciplined s' := by
  constructor
  · intro u
    rw [updated]
    by_cases isT : u = t
    · rw [isT, Function.update_self]
      exact covered
    · rw [Function.update_of_ne isT]
      exact disciplined.covered u
  · intro u
    rw [updated]
    by_cases isT : u = t
    · rw [isT, Function.update_self]
      exact mine
    · rw [Function.update_of_ne isT, others u isT]
      exact disciplined.counted u

omit [DecidableEq T] in
theorem unlocked_of_enters {o : Op} {e : Entry} (entry : s.enters o = some e)
    (locked : e.unlocked = false) : o.unlocked = false := by
  cases o with
  | ssl e' =>
      cases entry
      exact locked
  | protocol e' => rfl
  | _ => cases entry

theorem Disciplined.move (disciplined : Disciplined s) (move : Move s s' a t) : Disciplined s' := by
  have covered := disciplined.covered t
  have counted := disciplined.counted t
  cases move with
  | begins body idle harmless stack lock log =>
      rw [idle] at counted
      refine disciplined.of_update stack ?_ ?_ (fun u _ => by rw [lock])
      · exact ⟨by rintro e ⟨⟩, fun needs => absurd needs harmless.1, trivial⟩
      · rw [lock, counted]
        rfl
  | leaves f below here noLock stack lock log =>
      rw [here] at covered counted
      refine disciplined.of_update stack covered.2.2 ?_ (fun u _ => by rw [lock])
      rw [lock, counted, lockCount_cons, if_neg noLock]
      rfl
  | releases below here stack lock log =>
      rw [here] at covered counted
      have released := RLock.count_release lock
      refine disciplined.of_update stack covered.2.2 ?_ ?_
      · have mine := released t
        rw [if_pos rfl, counted, lockCount_cons, if_pos rfl] at mine
        omega
      · intro u other
        rw [released u, if_neg other]
  | acquires b o after below here stack lock log =>
      rw [here] at covered counted
      have acquired := RLock.count_acquire lock
      refine disciplined.of_update stack ⟨by rintro e ⟨⟩, ?_, covered.rest .tail⟩ ?_ ?_
      · intro _
        exact holds_cons.mpr (.inl rfl)
      · rw [acquired t, if_pos rfl, counted, lockCount_cons, lockCount_cons, lockCount_cons,
          if_pos rfl]
      · intro u other
        rw [acquired u, if_neg other]
  | enters b o after below e here entry entering stack lock log =>
      rw [here] at covered counted
      refine disciplined.of_update stack ⟨?_, ?_, covered.rest .tail⟩ ?_ (fun u _ => by rw [lock])
      · rintro e' ⟨⟩ locked
        have needs : NeedsLock (.bare o :: after) :=
          ⟨.bare o, List.mem_cons_self, by simp [Stmt.needsLock, unlocked_of_enters entry locked]⟩
        exact (covered.2.1 needs).rest after
      · rintro ⟨stmt, member, -⟩
        cases member
      · rw [lock, counted, lockCount_cons ⟨.entry e, []⟩, if_neg (by rintro ⟨⟩), lockCount_cons,
          lockCount_cons]
        rfl
  | goesOn b before after below here free due stack lock log =>
      rw [here] at covered counted
      refine disciplined.of_update stack (covered.rest free) ?_ (fun u _ => by rw [lock])
      rw [lock, counted, lockCount_cons, lockCount_cons]

theorem Disciplined.of_same (disciplined : Disciplined s) (same : SameThreads s s') :
    Disciplined s' := by
  constructor
  · intro t
    rw [same.stack]
    exact disciplined.covered t
  · intro t
    rw [same.lock, same.stack]
    exact disciplined.counted t

/-! ## Who is inside of the state machine -/

omit [DecidableEq T] in
theorem State.mem_inside {e : Entry} :
    e ∈ s.inside t ↔ ∃ f ∈ s.stack t, f.bracket = .entry e := by
  simp only [State.inside, List.mem_filterMap]
  refine exists_congr fun f => and_congr_right fun _ => ?_
  cases f.bracket <;> simp

theorem Covered.holds {stack : List Frame} {f : Frame} {e : Entry} (covered : Covered stack)
    (member : f ∈ stack) (isEntry : f.bracket = .entry e) (locked : e.unlocked = false) :
    Holds stack := by
  induction stack with
  | nil => cases member
  | cons top below ih =>
      refine holds_cons.mpr (.inr ?_)
      cases member with
      | head => exact covered.1 e isEntry locked
      | tail _ member => exact ih covered.2.2 member

/-- A thread inside of any other entry than the two holds the lock. -/
theorem Disciplined.holds (disciplined : Disciplined s) {e : Entry} (inside : e ∈ s.inside t)
    (locked : e.unlocked = false) : s.lock.count t ≠ 0 := by
  obtain ⟨f, member, isEntry⟩ := State.mem_inside.mp inside
  rw [disciplined.counted t]
  exact lockCount_ne_zero.mpr ((disciplined.covered t).holds member isEntry locked)

/-- No two threads are inside of the state machine. -/
def SingleEntered (s : State T) : Prop :=
  ∀ t u, t ≠ u → s.inside t = [] ∨ s.inside u = []

/-- Every delivery comes after `connection_made`. -/
def InOrder (log : List Entry) : Prop :=
  ∀ before e after, log = before ++ e :: after → e.delivers = true → .connectionMade ∈ before

/-- The entry of `t` does not meet `connection_made` or `_get_app_transport`,
which are called without the lock, on another thread. -/
structure Undisturbed (s : State T) (t : T) (e : Entry) : Prop where
  alone : e.unlocked = true → ∀ u, u ≠ t → s.inside u = []
  apart : ∀ u, u ≠ t → ∀ e' ∈ s.inside u, e'.unlocked = false

/-- The step does not meet the gaps of the upgrade: the socket has nothing for a
read that is ahead of `_begin`, and nobody else is in the state machine around
the two calls that do not take the lock. -/
structure Serialized (s : State T) (a : Act T) : Prop where
  early : s.receives a = true → .connectionMade ∈ s.log
  undisturbed : ∀ t e, s.entering a = some (t, e) → Undisturbed s t e

/-- What is about to be delivered was read after `connection_made`. -/
def Expected (s : State T) : Prop :=
  ∀ t, ∀ f ∈ s.stack t, Due f.rest → .connectionMade ∈ s.log

theorem Expected.of_update (expected : Expected s) {stack : List Frame}
    (updated : s'.stack = Function.update s.stack t stack)
    (made : .connectionMade ∈ s.log → .connectionMade ∈ s'.log)
    (mine : ∀ f ∈ stack, Due f.rest → .connectionMade ∈ s'.log) : Expected s' := by
  intro u f member due
  rw [updated] at member
  by_cases isT : u = t
  · rw [isT, Function.update_self] at member
    exact mine f member due
  · rw [Function.update_of_ne isT] at member
    exact made (expected u f member due)

theorem Expected.move (expected : Expected s) (move : Move s s' a t)
    (early : s.receives a = true → .connectionMade ∈ s.log) : Expected s' := by
  have mine := expected t
  cases move with
  | begins body idle harmless stack lock log =>
      refine expected.of_update stack (log ▸ id) ?_
      intro f member due
      cases List.mem_singleton.mp member
      exact absurd due harmless.2
  | leaves f below here noLock stack lock log =>
      rw [here, List.forall_mem_cons] at mine
      exact expected.of_update stack (log ▸ id) (log ▸ mine.2)
  | releases below here stack lock log =>
      rw [here, List.forall_mem_cons] at mine
      exact expected.of_update stack (log ▸ id) (log ▸ mine.2)
  | acquires b o after below here stack lock log =>
      rw [here, List.forall_mem_cons] at mine
      refine expected.of_update stack (log ▸ id) ?_
      rw [log, List.forall_mem_cons, List.forall_mem_cons]
      refine ⟨?_, fun due => mine.1 due.tail, mine.2⟩
      rintro ⟨stmt, member, delivers⟩
      cases List.mem_singleton.mp member
      refine mine.1 ⟨.locked o, List.mem_cons_self, ?_⟩
      cases o <;> exact delivers
  | enters b o after below e here entry entering stack lock log =>
      rw [here, List.forall_mem_cons] at mine
      have made : .connectionMade ∈ s.log → .connectionMade ∈ s'.log := by
        intro member
        rw [log]
        exact List.mem_append_left _ member
      refine expected.of_update stack made ?_
      rw [List.forall_mem_cons, List.forall_mem_cons]
      refine ⟨?_, fun due => made (mine.1 due.tail), fun f member due => made (mine.2 f member due)⟩
      rintro ⟨stmt, member, -⟩
      cases member
  | goesOn b before after below here free due stack lock log =>
      rw [here, List.forall_mem_cons] at mine
      refine expected.of_update stack (log ▸ id) ?_
      rw [log, List.forall_mem_cons]
      refine ⟨?_, mine.2⟩
      intro now
      obtain was | received := due now
      · exact mine.1 was
      · exact early received

omit [DecidableEq T] in
/-- An entry that delivers was due. -/
theorem Expected.made {e : Entry} (expected : Expected s) (entering : s.entering a = some (t, e))
    (delivers : e.delivers = true) : .connectionMade ∈ s.log := by
  cases a with
  | go u choice =>
      obtain ⟨e', entry, same⟩ := Option.map_eq_some_iff.mp entering
      cases same
      obtain ⟨o, next, entry⟩ := Option.bind_eq_some_iff.mp entry
      simp only [State.next] at next
      split at next
      · rename_i b o' after below here
        cases next
        refine expected t _ (here ▸ List.mem_cons_self) ⟨.bare o, List.mem_cons_self, ?_⟩
        cases o with
        | ssl e' =>
            cases entry
            exact delivers
        | protocol e' =>
            simp only [State.enters] at entry
            split at entry
            · cases entry
              exact delivers
            · cases entry
        | _ => cases entry
      · cases next
  | _ => cases entering

theorem InOrder.append {log : List Entry} {e : Entry} (inOrder : InOrder log)
    (made : e.delivers = true → .connectionMade ∈ log) : InOrder (log ++ [e]) := by
  intro before e' after split delivers
  obtain rfl | ⟨init, last, rfl⟩ := List.eq_nil_or_concat after
  · obtain ⟨rfl, same⟩ := List.append_inj' split rfl
    cases same
    exact made delivers
  · rw [List.concat_eq_append, ← List.cons_append, ← List.append_assoc] at split
    obtain ⟨rfl, -⟩ := List.append_inj' split rfl
    exact inOrder before e' init rfl delivers

/-- Only an entry brings a thread inside. -/
theorem inside_of_update {stack : List Frame} (updated : s'.stack = Function.update s.stack t stack)
    (fewer : ∀ f ∈ stack, ∀ e, f.bracket = .entry e → e ∈ s.inside t) (u : T)
    (outside : s.inside u = []) : s'.inside u = [] := by
  rw [List.eq_nil_iff_forall_not_mem] at outside ⊢
  intro e inside
  obtain ⟨f, member, isEntry⟩ := State.mem_inside.mp inside
  rw [updated] at member
  by_cases isT : u = t
  · subst isT
    rw [Function.update_self] at member
    exact outside e (fewer f member e isEntry)
  · rw [Function.update_of_ne isT] at member
    exact outside e (State.mem_inside.mpr ⟨f, member, isEntry⟩)

/-- A step brings nobody inside, or it is an entry of the thread that moves. -/
theorem Move.inside (move : Move s s' a t) :
    (s'.log = s.log ∧ ∀ u, s.inside u = [] → s'.inside u = []) ∨
      ∃ e, s.entering a = some (t, e) ∧ s'.log = s.log ++ [e] ∧ e ∈ s'.inside t ∧
        ∀ u, u ≠ t → s'.inside u = s.inside u := by
  cases move with
  | begins body idle harmless stack lock log =>
      refine .inl ⟨log, inside_of_update stack ?_⟩
      rintro f member e isEntry
      cases List.mem_singleton.mp member
      cases isEntry
  | leaves f below here noLock stack lock log =>
      refine .inl ⟨log, inside_of_update stack ?_⟩
      intro f' member e isEntry
      exact State.mem_inside.mpr ⟨f', here ▸ List.mem_cons_of_mem _ member, isEntry⟩
  | releases below here stack lock log =>
      refine .inl ⟨log, inside_of_update stack ?_⟩
      intro f member e isEntry
      exact State.mem_inside.mpr ⟨f, here ▸ List.mem_cons_of_mem _ member, isEntry⟩
  | acquires b o after below here stack lock log =>
      refine .inl ⟨log, inside_of_update stack ?_⟩
      simp only [List.forall_mem_cons]
      refine ⟨by rintro e ⟨⟩, ?_, ?_⟩
      · intro e isEntry
        exact State.mem_inside.mpr ⟨_, here ▸ List.mem_cons_self, isEntry⟩
      · intro f member e isEntry
        exact State.mem_inside.mpr ⟨f, here ▸ List.mem_cons_of_mem _ member, isEntry⟩
  | enters b o after below e here entry entering stack lock log =>
      refine .inr ⟨e, entering, log, ?_, ?_⟩
      · refine State.mem_inside.mpr ⟨⟨.entry e, []⟩, ?_, rfl⟩
        rw [stack, Function.update_self]
        exact List.mem_cons_self
      · intro u other
        simp only [State.inside, stack, Function.update_of_ne other]
  | goesOn b before after below here free due stack lock log =>
      refine .inl ⟨log, inside_of_update stack ?_⟩
      simp only [List.forall_mem_cons]
      constructor
      · intro e isEntry
        exact State.mem_inside.mpr ⟨_, here ▸ List.mem_cons_self, isEntry⟩
      · intro f member e isEntry
        exact State.mem_inside.mpr ⟨f, here ▸ List.mem_cons_of_mem _ member, isEntry⟩

/-- An undisturbed entry finds nobody else inside: the others that are inside hold
the lock, and so does the one that enters. -/
theorem Undisturbed.nobody {e : Entry} (undisturbed : Undisturbed s t e)
    (disciplined : Disciplined s') (entered : e ∈ s'.inside t) (other : u ≠ t)
    (same : s'.inside u = s.inside u) : s'.inside u = [] := by
  rw [List.eq_nil_iff_forall_not_mem]
  intro e' inside
  have locked' : e'.unlocked = false := undisturbed.apart u other e' (same ▸ inside)
  have holds' : s'.lock.count u ≠ 0 := disciplined.holds inside locked'
  cases unlocked : e.unlocked with
  | true =>
      rw [same, undisturbed.alone unlocked u other] at inside
      cases inside
  | false => exact other (RLock.one_holder holds' (disciplined.holds entered unlocked))

theorem SingleEntered.enters {e : Entry} (single : SingleEntered s)
    (undisturbed : Undisturbed s t e) (disciplined : Disciplined s') (entered : e ∈ s'.inside t)
    (same : ∀ u, u ≠ t → s'.inside u = s.inside u) : SingleEntered s' := by
  intro v w apart
  by_cases isT : v = t
  · subst isT
    have other : w ≠ v := apart.symm
    exact .inr (undisturbed.nobody disciplined entered other (same w other))
  · by_cases isT' : w = t
    · exact .inl (undisturbed.nobody disciplined (isT' ▸ entered) isT (same v isT))
    · rw [same v isT, same w isT']
      exact single v w apart

omit [DecidableEq T] in
theorem SingleEntered.of_inside (single : SingleEntered s)
    (fewer : ∀ u, s.inside u = [] → s'.inside u = []) : SingleEntered s' := by
  intro v w apart
  exact (single v w apart).imp (fewer v) (fewer w)

/-- What every run keeps that does not meet the gaps of the upgrade. -/
structure Upgraded (s : State T) : Prop where
  inOrder : InOrder s.log
  single : SingleEntered s
  disciplined : Disciplined s
  expected : Expected s

theorem upgraded_fresh (paused : Bool) : Upgraded (fresh paused : State T) := by
  refine ⟨?_, fun _ _ _ => .inl rfl, ⟨fun _ => trivial, fun _ => rfl⟩, ?_⟩
  · intro before e after split
    exact absurd split.symm (List.append_ne_nil_of_right_ne_nil _ (List.cons_ne_nil _ _))
  · intro t f member
    cases member

theorem Upgraded.step (upgraded : Upgraded s) (serialized : Serialized s a)
    (taken : step s a = some s') : Upgraded s' := by
  obtain ⟨inOrder, single, disciplined, expected⟩ := upgraded
  obtain ⟨t, move⟩ | same := step_move taken
  · have disciplined' := disciplined.move move
    have expected' := expected.move move serialized.early
    obtain ⟨log, fewer⟩ | ⟨e, entering, log, entered, others⟩ := move.inside
    · exact ⟨log ▸ inOrder, single.of_inside fewer, disciplined', expected'⟩
    · have undisturbed := serialized.undisturbed t e entering
      exact ⟨log ▸ inOrder.append (expected.made entering),
        single.enters undisturbed disciplined' entered others, disciplined', expected'⟩
  · refine ⟨same.log ▸ inOrder, single.of_inside ?_, disciplined.of_same same, ?_⟩
    · intro u outside
      rw [← outside]
      simp only [State.inside, same.stack]
    · intro u
      rw [same.stack, same.log]
      exact expected u

/-- Every entry of the upgraded connection is made in order and alone, in every
run in which the socket has nothing for a read that is ahead of `_begin` and
nobody else is in the state machine around the two calls that do not take the
lock. -/
theorem enters_in_order (reached : (machine T).Reach Serialized s) :
    InOrder s.log ∧ SingleEntered s ∧
      ∀ t e, e ∈ s.inside t → e.unlocked = false → s.lock.count t ≠ 0 := by
  have upgraded : Upgraded s := by
    refine reached.invariant Upgraded ?_ ?_
    · rintro s ⟨paused, rfl⟩
      exact upgraded_fresh paused
    · intro s a s' upgraded serialized taken
      exact upgraded.step serialized taken
  refine ⟨upgraded.inOrder, upgraded.single, ?_⟩
  intro t e inside locked
  exact upgraded.disciplined.holds inside locked

/-! ## Runs -/

theorem fresh_start (paused : Bool) : (machine T).start (fresh paused) := ⟨paused, rfl⟩

/-- Sends go through, reads find data, no claim is met. -/
def smooth : Choice where
  received := .data
  sent := .all
  aside := false
  keepOpen := false
  resumes := false

/-- `start_tls` up to its suspension. -/
def upgrading : List (Act Bool) :=
  .startTls false :: .replicate 6 (.go false smooth)

/-- The peer has sent something; `_read_ready` runs ahead of `_begin`. -/
def earlyRun : List (Act Bool) :=
  upgrading ++ .readable true :: .replicate 7 (.go true smooth)

theorem earlyRun_ends :
    ((machine Bool).exec (fresh false) earlyRun).any (fun s =>
      s.log = [.getBuffer, .bufferUpdated]) = true := by
  decide +kernel

/-- `_begin` is inside of `connection_made` when `_read_ready` takes the lock. -/
def overlappingRun : List (Act Bool) :=
  upgrading ++ .run false .begin :: .go false smooth :: .readable true ::
    .replicate 4 (.go true smooth)

theorem overlappingRun_ends :
    ((machine Bool).exec (fresh false) overlappingRun).any (fun s =>
      s.inside false = [.connectionMade] ∧ s.inside true = [.getBuffer]) = true := by
  decide +kernel

theorem entries_race :
    (∃ s : State Bool, (machine Bool).Reachable s ∧ ¬InOrder s.log) ∧
      ∃ s : State Bool, (machine Bool).Reachable s ∧ ¬SingleEntered s := by
  constructor
  · obtain ⟨s, reached, ends⟩ := Machine.Reachable.exists_of_exec (fresh_start false) earlyRun_ends
    refine ⟨s, reached, ?_⟩
    intro inOrder
    have made := inOrder [.getBuffer] .bufferUpdated [] (of_decide_eq_true ends) rfl
    cases List.mem_singleton.mp made
  · obtain ⟨s, reached, ends⟩ :=
      Machine.Reachable.exists_of_exec (fresh_start false) overlappingRun_ends
    obtain ⟨begins, reads⟩ := of_decide_eq_true ends
    refine ⟨s, reached, ?_⟩
    intro single
    obtain none | none := single false true (by decide)
    · rw [none] at begins
      cases begins
    · rw [none] at reads
      cases reads

/-- The condition, for two threads. -/
def serialized (s : State Bool) (a : Act Bool) : Bool :=
  (!s.receives a || s.log.contains .connectionMade) &&
    (s.entering a).all fun entry =>
      (!entry.2.unlocked || (s.inside !entry.1).isEmpty) &&
        (s.inside !entry.1).all fun e => !e.unlocked

theorem serialized_sound (s : State Bool) (a : Act Bool) (checked : serialized s a = true) :
    Serialized s a := by
  simp only [serialized, Bool.and_eq_true, Bool.or_eq_true, Bool.not_eq_true',
    List.contains_iff_mem] at checked
  obtain ⟨early, others⟩ := checked
  constructor
  · intro receives
    exact early.resolve_left (by simp [receives])
  · intro t e entering
    simp only [entering, Option.all_some, Bool.and_eq_true, Bool.or_eq_true, Bool.not_eq_true',
      List.isEmpty_iff, List.all_eq_true] at others
    constructor
    · intro unlocked u other
      rw [Bool.eq_not_of_ne other]
      exact others.1.resolve_left (by simp [unlocked])
    · intro u other e' inside
      rw [Bool.eq_not_of_ne other] at inside
      exact others.2 e' inside

/-- `_begin` runs the handshake, which writes to the transport; then a read takes
the lock and delivers. -/
def handshakeRun : List (Act Bool) :=
  upgrading ++ .run false .begin :: .go false smooth :: .inner false .write ::
    (.replicate 8 (.go false smooth) ++ .readable true :: .replicate 7 (.go true smooth))

theorem handshakeRun_ends :
    ((machine Bool).execIf serialized (fresh false) handshakeRun).any (fun s =>
      s.log = [.connectionMade, .getBuffer, .bufferUpdated] ∧
        s.inside true = [.bufferUpdated]) = true := by
  decide +kernel

theorem enters_in_order_after_handshake :
    ∃ s : State Bool, s.log = [.connectionMade, .getBuffer, .bufferUpdated] ∧
      s.inside true = [.bufferUpdated] ∧ InOrder s.log ∧ SingleEntered s ∧
        s.lock.count true ≠ 0 := by
  obtain ⟨s, reached, ends⟩ :=
    Machine.Reach.exists_of_execIf serialized_sound (fresh_start false) handshakeRun_ends
  obtain ⟨log, inside⟩ := of_decide_eq_true ends
  obtain ⟨inOrder, single, locked⟩ := enters_in_order reached
  exact ⟨s, log, inside, inOrder, single,
    locked true .bufferUpdated (by rw [inside]; exact List.mem_cons_self) rfl⟩

end MtAsyncio.Tls
