/-
Module: MtAsyncio.Proofs.FutureContract
Purpose: What a `Future` promises its users under any interleaving: one
  completion wins and its payload stays, every callback is scheduled once, and
  nobody who waits is forgotten.  Every registration of a callback is in exactly
  one place: not made yet, listed, removed, with a thread, or on the run queue.
Trusted boundary: none
Main exports: Shelf, shelves, Listed, listed_step, Contract, future_contract
-/
import Mathlib.Data.List.Count
import MtAsyncio.Proofs.FutureWatchers

namespace MtAsyncio.Futures

open Lib (Machine Once)
open Wakes (Region)

variable {T W V X C M G K : Type}

/-! ## The callbacks -/

def Wake.entry : Wake G K → Option (Entry G K)
  | .set => none
  | .soon entry => some entry

def soons (wakes : List (Wake G K)) : List (Entry G K) :=
  wakes.filterMap Wake.entry

def After.entries : After G K → List (Entry G K)
  | .callbacks _ rest => rest
  | .flush rest => soons rest

/-- The callbacks that a thread standing here has to schedule. -/
def Pc.entries : Pc V X M G K → List (Entry G K)
  | .wake _ callbacks => callbacks
  | .notify after | .drain after => after.entries
  | .runCallbacks _ rest => rest
  | .soon entry => [entry]
  | .flush rest => soons rest
  | _ => []

theorem After.pc_entries (after : After G K) :
    (after.pc : Pc V X M G K).entries = after.entries := by
  cases after <;> rfl

/-- Where a registration can be. -/
inductive Shelf (T : Type) where
  | unborn
  | listed
  | removed
  | thread (t : T)
  | queued

def tally (id : Nat) (entries : List (Entry G K)) : Nat :=
  (entries.map Entry.id).count id

@[simp]
theorem tally_nil (id : Nat) : tally id ([] : List (Entry G K)) = 0 :=
  rfl

@[simp]
theorem tally_append (id : Nat) (first second : List (Entry G K)) :
    tally id (first ++ second) = tally id first + tally id second := by
  rw [tally, List.map_append, List.count_append]
  rfl

theorem tally_cons (id : Nat) (entry : Entry G K) (rest : List (Entry G K)) :
    tally id (entry :: rest) = tally id [entry] + tally id rest :=
  tally_append id [entry] rest

/-- How often registration `id` is in each place. -/
def shelves (s : State T W V X M G K) (id : Nat) : Shelf T → Nat
  | .unborn => if s.issued ≤ id then 1 else 0
  | .listed => tally id s.fut.callbacks
  | .removed => s.removed.count id
  | .thread t => tally id (s.pc t).entries + tally id (soons (s.region t).pending)
  | .queued => tally id s.queue

/-- Every registration is in one place, and a completed future has handed its
callbacks out. -/
structure Listed (s : State T W V X M G K) : Prop where
  once : ∀ id, Once (shelves s id)
  emptied : s.fut.state ≠ .pending → s.fut.callbacks = []

section Callbacks

variable {s s' : State T W V X M G K} {t : T}

/-- One thread moves and keeps the callbacks it has. -/
theorem Listed.keep [DecidableEq T] (listed : Listed s) (issued : s'.issued = s.issued)
    (callbacks : s'.fut.callbacks = s.fut.callbacks) (state : s'.fut.state = s.fut.state)
    (removed : s'.removed = s.removed) (queue : s'.queue = s.queue)
    (others : ∀ u, u ≠ t → s'.pc u = s.pc u ∧ s'.region u = s.region u)
    (here : ∀ id, tally id (s'.pc t).entries + tally id (soons (s'.region t).pending) =
      tally id (s.pc t).entries + tally id (soons (s.region t).pending)) : Listed s' where
  once := by
    intro id
    apply (listed.once id).same
    intro p
    cases p with
    | unborn => simp only [shelves, issued]
    | listed => simp only [shelves, callbacks]
    | removed => simp only [shelves, removed]
    | thread u =>
        by_cases self : u = t
        · exact self ▸ here id
        · simp only [shelves, others u self]
    | queued => simp only [shelves, queue]
  emptied := by
    rw [state, callbacks]
    exact listed.emptied

/-- One thread puts a callback it has onto the run queue. -/
theorem Listed.schedules (listed : Listed s) {entry : Entry G K} (issued : s'.issued = s.issued)
    (callbacks : s'.fut.callbacks = s.fut.callbacks) (state : s'.fut.state = s.fut.state)
    (removed : s'.removed = s.removed) (queue : s'.queue = s.queue ++ [entry])
    (others : ∀ u, u ≠ t → s'.pc u = s.pc u ∧ s'.region u = s.region u)
    (region : s'.region t = s.region t)
    (here : ∀ id, tally id (s.pc t).entries = tally id [entry] + tally id (s'.pc t).entries) :
    Listed s' where
  once := by
    intro id
    refine (listed.once id).transfer (p := .thread t) (q := .queued) (by rintro ⟨⟩) ?_ ?_
    · simp only [shelves, queue, region, here id, tally_append]
      omega
    · intro p notThread notQueued
      cases p with
      | unborn => simp only [shelves, issued]
      | listed => simp only [shelves, callbacks]
      | removed => simp only [shelves, removed]
      | thread u =>
          have other : u ≠ t := fun same => notThread (same ▸ rfl)
          simp only [shelves, others u other]
      | queued => exact absurd rfl notQueued
  emptied := by
    rw [state, callbacks]
    exact listed.emptied

/-- `call_soon` of the first callback of those that the thread has. -/
theorem Listed.callSoon [DecidableEq T] (listed : Listed s) (entry : Entry G K) (pc : Pc V X M G K)
    {reply : T → Option Reply}
    (here : ∀ id, tally id (s.pc t).entries = tally id [entry] + tally id pc.entries) :
    Listed { s.callSoon t entry with
      pc := Function.update (s.callSoon t entry).pc t pc, reply := reply } := by
  have moved : Function.update (s.callSoon t entry).pc t pc t = pc := Function.update_self ..
  unfold State.callSoon at moved ⊢
  split
  · refine listed.schedules (t := t) rfl rfl rfl rfl rfl
      (fun u other => ⟨Function.update_of_ne other .., rfl⟩) rfl ?_
    intro id
    rw [here id]
    simp only [Function.update_self]
  · rename_i region
    refine listed.keep (t := t) rfl rfl rfl rfl rfl (fun u other =>
      ⟨Function.update_of_ne other .., Function.update_of_ne other ..⟩) ?_
    intro id
    simp only [State.setRegion, Function.update_self]
    rw [Wakes.Region.pending_append (by simpa using region), here id, soons, List.filterMap_append,
      tally_append]
    change _ + (_ + tally id [entry]) = _
    rw [soons]
    omega

/-- A completing call takes all callbacks with it. -/
theorem Listed.complete [DecidableEq T] (listed : Listed s) {op : Completion V X M}
    (at_ : s.pc t = .complete op) {wins : List (Win T V X M)} :
    Listed ({ s with fut := s.fut.complete op, wins := wins }.goto t
      (.wake op.won s.fut.callbacks)) := by
  set after := { s with fut := s.fut.complete op, wins := wins }.goto t
    (.wake op.won s.fut.callbacks)
  have here : after.pc t = .wake op.won s.fut.callbacks := Function.update_self ..
  have others : ∀ u, u ≠ t → after.pc u = s.pc u := fun u other => Function.update_of_ne other ..
  have empty : after.fut.callbacks = [] := by
    cases op <;> rfl
  refine ⟨?_, fun _ => empty⟩
  intro id
  refine (listed.once id).transfer (p := .listed) (q := .thread t) (by rintro ⟨⟩) ?_ ?_
  · have taken : shelves after id (.thread t) =
        tally id s.fut.callbacks + tally id (soons (s.region t).pending) := by
      rw [shelves, here]
      rfl
    have before : shelves s id (.thread t) = tally id (soons (s.region t).pending) := by
      rw [shelves, at_]
      exact Nat.zero_add _
    rw [taken, before, shelves, shelves, empty, tally_nil, Nat.zero_add]
  · intro p notListed notThread
    cases p with
    | unborn | removed | queued => rfl
    | listed => exact absurd rfl notListed
    | thread u =>
        have other : u ≠ t := fun same => notThread (same ▸ rfl)
        rw [shelves, shelves, others u other]
        rfl

/-- A new registration is made; `q` is where it goes. -/
theorem Listed.issues (listed : Listed s) (entry : Entry G K) {q : Shelf T}
    (fresh : entry.id = s.issued) (born : q ≠ .unborn) (issued : s'.issued = s.issued + 1)
    (there : ∀ id, shelves s' id q = shelves s id q + tally id [entry])
    (elsewhere : ∀ id p, p ≠ .unborn → p ≠ q → shelves s' id p = shelves s id p)
    (emptied : s'.fut.state ≠ .pending → s'.fut.callbacks = []) : Listed s' where
  once := by
    intro id
    refine (listed.once id).transfer (p := .unborn) (q := q) born.symm ?_ (elsewhere id)
    have one : tally id [entry] = if s.issued = id then 1 else 0 := by
      rw [tally, List.map_singleton, List.count_singleton, fresh]
      simp [beq_iff_eq]
    rw [there id, one, shelves, shelves, issued]
    by_cases self : s.issued = id
    · rw [if_neg (by omega), if_pos self, if_pos (by omega)]
      omega
    · by_cases later : s.issued ≤ id
      · rw [if_pos (by omega), if_neg self, if_pos later]
        omega
      · rw [if_neg (by omega), if_neg self, if_neg later]
        omega
  emptied := emptied

/-- `remove_done_callback` splits the list. -/
theorem tally_kept [DecidableEq G] (fut : Fields V X M G K) (fn : G) (id : Nat) :
    tally id (fut.kept fn) + tally id (fut.dropped fn) = tally id fut.callbacks := by
  rw [Fields.kept, Fields.dropped]
  induction fut.callbacks with
  | nil => rfl
  | cons entry rest ih =>
      rw [tally_cons id entry rest, ← ih]
      by_cases same : entry.fn = fn
      · rw [List.filter_cons_of_neg (by simpa using same),
          List.filter_cons_of_pos (by simpa using same), tally_cons id entry]
        omega
      · rw [List.filter_cons_of_pos (by simpa using same),
          List.filter_cons_of_neg (by simpa using same), tally_cons id entry]
        omega

theorem Listed.removes [DecidableEq T] [DecidableEq G] (listed : Listed s) {fn : G}
    (at_ : s.pc t = .remove fn) :
    Listed (removeStep s t fn) := by
  constructor
  · intro id
    refine (listed.once id).transfer (p := .listed) (q := .removed) (by rintro ⟨⟩) ?_ ?_
    · have split := tally_kept s.fut fn id
      have taken : (s.removed ++ (s.fut.dropped fn).map Entry.id).count id =
          s.removed.count id + tally id (s.fut.dropped fn) := List.count_append
      simp only [shelves, removeStep, State.answer, taken]
      omega
    · intro p notListed notRemoved
      cases p with
      | unborn | queued => rfl
      | listed => exact absurd rfl notListed
      | removed => exact absurd rfl notRemoved
      | thread u =>
          by_cases self : u = t
          · subst self
            simp only [shelves, removeStep, State.answer, Function.update_self, at_]
            rfl
          · simp only [shelves, removeStep, State.answer, Function.update_of_ne self]
  · intro done
    have empty := listed.emptied done
    simp only [removeStep, State.answer, Fields.kept, empty, List.filter_nil]

theorem Listed.set [DecidableEq T] (listed : Listed s) {after : After G K}
    (here : (s.pc t).entries = after.entries) : Listed (s.set t after) := by
  unfold State.set
  split
  · refine listed.keep (t := t) rfl rfl rfl rfl rfl
      (fun u other => ⟨Function.update_of_ne other .., rfl⟩) ?_
    intro id
    simp only [State.goto, Function.update_self, here, After.pc_entries]
  · refine listed.keep (t := t) rfl rfl rfl rfl rfl
      (fun u other => ⟨Function.update_of_ne other .., rfl⟩) ?_
    intro id
    simp only [State.goto, Function.update_self, here]
    rfl

theorem Listed.thread [DecidableEq T] [DecidableEq W] [DecidableEq G] (listed : Listed s)
    (taken : threadStep s t = some s') : Listed s' := by
  -- a thread that goes on with the callbacks it has
  have goes : ∀ {r : State T W V X M G K} {pc : Pc V X M G K} {reply : T → Option Reply},
      r.issued = s.issued → r.fut = s.fut → r.removed = s.removed → r.queue = s.queue →
      r.pc = s.pc → r.region = s.region → pc.entries = (s.pc t).entries →
      Listed { r with pc := Function.update r.pc t pc, reply := reply } := by
    intro r pc reply issued fut removed queue same region entries
    refine listed.keep (t := t) issued (congrArg Fields.callbacks fut) (congrArg Fields.state fut)
      removed queue (fun u other => ⟨?_, congrFun region u⟩) ?_
    · rw [same]
      exact Function.update_of_ne other ..
    · intro id
      simp only [Function.update_self, entries, region]
  cases threadStep_move taken with
  | completed at_ => exact listed.complete at_
  | lost at_ | returned at_ => exact goes rfl rfl rfl rfl rfl rfl (by rw [at_]; rfl)
  | notified at_ | flushed at_ => exact goes rfl rfl rfl rfl rfl rfl (by rw [at_]; rfl)
  | woke at_ | flushedSet at_ => exact listed.set (by rw [at_]; rfl)
  | collected at_ inside =>
      refine listed.keep (t := t) rfl rfl rfl rfl rfl
        (fun u other => ⟨Function.update_of_ne other .., Function.update_of_ne other ..⟩) ?_
      intro id
      simp only [State.goto, State.setRegion, Function.update_self, at_]
      rw [Wakes.Region.pending_append inside, soons, List.filterMap_append, tally_append]
      rfl
  | drained at_ => exact goes rfl rfl rfl rfl rfl rfl (by rw [at_, After.pc_entries]; rfl)
  | told => exact ⟨listed.once, listed.emptied⟩
  | @scheduled reply entry rest at_ =>
      exact listed.callSoon entry (.runCallbacks reply rest)
        fun id => by rw [at_]; exact tally_cons id entry rest
  | @added fn context at_ pending =>
      refine listed.issues ⟨fn, context, s.issued⟩ (q := .listed) rfl (by rintro ⟨⟩) rfl
        (fun id => tally_append ..) ?_ (fun done => absurd pending done)
      intro id p notUnborn notListed
      cases p with
      | unborn => exact absurd rfl notUnborn
      | listed => exact absurd rfl notListed
      | removed | queued => rfl
      | thread u =>
          by_cases self : u = t
          · subst self
            simp only [shelves, State.answer, Function.update_self, at_]
            rfl
          · simp only [shelves, State.answer, Function.update_of_ne self]
  | @late fn context at_ done =>
      refine listed.issues ⟨fn, context, s.issued⟩ (q := .thread t) rfl (by rintro ⟨⟩) rfl
        ?_ ?_ listed.emptied
      · intro id
        simp only [shelves, State.goto, Function.update_self, at_, Pc.entries, tally_nil]
        omega
      · intro id p notUnborn notThread
        cases p with
        | unborn => exact absurd rfl notUnborn
        | listed | removed | queued => rfl
        | thread u =>
            have other : u ≠ t := fun same => notThread (same ▸ rfl)
            simp only [shelves, State.goto, Function.update_of_ne other]
  | @queued entry at_ => exact listed.callSoon entry .idle fun id => by rw [at_]; rfl
  | removed at_ => exact listed.removes at_
  | @flushedSoon entry rest at_ =>
      refine listed.schedules (t := t) rfl rfl rfl rfl rfl
        (fun u other => ⟨Function.update_of_ne other .., rfl⟩) rfl ?_
      intro id
      simp only [State.goto, Function.update_self, at_]
      exact tally_cons id entry (soons rest)

theorem listed_step [DecidableEq T] [DecidableEq W] [DecidableEq G] {e : Exceptions X C}
    {a : Act T W V X C M G K} (listed : Listed s) (taken : step e s a = some s') : Listed s' := by
  cases a with
  | call t c =>
      simp only [step] at taken
      split at taken <;> cases taken
      rename_i at_
      have begins : ∀ (pc : Pc V X M G K) (reply : T → Option Reply), pc.entries = [] →
          Listed { s with pc := Function.update s.pc t pc, reply := reply } := by
        intro pc reply none
        refine listed.keep (t := t) rfl rfl rfl rfl rfl
          (fun u other => ⟨Function.update_of_ne other .., rfl⟩) ?_
        intro id
        simp only [Function.update_self, none, at_]
        rfl
      cases c with
      | setException argument =>
          simp only [callStep]
          split <;> exact begins _ _ rfl
      | _ => exact begins _ _ rfl
  | thread t => exact listed.thread taken
  | enter t =>
      simp only [step] at taken
      split at taken <;> cases taken
      refine listed.keep (t := t) rfl rfl rfl rfl rfl
        (fun u other => ⟨rfl, Function.update_of_ne other ..⟩) ?_
      intro id
      simp only [State.setRegion, Function.update_self, Wakes.Region.pending_enter]
  | exit t =>
      simp only [step] at taken
      split at taken
      · rename_i at_
        obtain ⟨⟨region, flush⟩, left, rfl⟩ := Option.map_eq_some_iff.mp taken
        refine listed.keep (t := t) rfl rfl rfl rfl rfl
          (fun u other => ⟨Function.update_of_ne other .., Function.update_of_ne other ..⟩) ?_
        intro id
        simp only [State.goto, State.setRegion, Function.update_self, at_]
        rw [← Wakes.Region.pending_exit left, soons, soons, List.filterMap_append, tally_append]
        exact (Nat.zero_add _).symm
      · cases taken
  | await w =>
      simp only [step] at taken
      split at taken <;> cases taken <;> exact ⟨listed.once, listed.emptied⟩
  | task w must =>
      obtain ⟨fut, -, queue, region, pc, issued, removed, -⟩ := taskStep_frame taken
      have same : shelves s' = shelves s := by
        funext id p
        cases p <;> simp only [shelves, issued, fut, removed, pc, region, queue]
      exact ⟨same ▸ listed.once, fut ▸ listed.emptied⟩

end Callbacks

/-! ## The contract -/

/-- Thread `t` has the callback `id` to schedule before its call returns or its
region ends. -/
def Schedules (s : State T W V X M G K) (t : T) (id : Nat) : Prop :=
  0 < tally id (s.pc t).entries + tally id (soons (s.region t).pending)

section Contract


/-- What a future promises in every state of every run. -/
structure Contract [DecidableEq T] [DecidableEq W] [DecidableEq G] (e : Exceptions X C)
    (s : State T W V X M G K) : Prop where
  /-- at most one completion succeeds -/
  single : s.wins.length ≤ 1 ∧ (s.wins = [] ↔ s.fut.state = .pending)
  /-- what it put is what is read -/
  payload : ∀ win ∈ s.wins, s.fut.read = win.op.outcome
  /-- state and payload never change afterwards -/
  frozen : s.fut.state ≠ .pending → ∀ steps s', (machine e).exec s steps = some s' → Kept s s'
  /-- a losing call raises or returns `False`, and changes nothing -/
  loses : ∀ t op, s.pc t = .complete op → s.fut.state ≠ .pending →
    step e s (.thread t) = some (s.answer t op.lost)
  atMostOnce : ∀ id, tally id s.queue ≤ 1
  removedNever : ∀ id, id ∈ s.removed → tally id s.queue = 0 ∧ ∀ t, ¬Schedules s t id
  /-- once the future is done, a callback that was not removed is scheduled or
  about to be -/
  scheduled : s.fut.state ≠ .pending → ∀ id, id < s.issued → id ∉ s.removed →
    tally id s.queue = 1 ∨ ∃ t, Schedules s t id
  /-- the native event is set only when the future is done -/
  event : s.flag = true → s.fut.state ≠ .pending
  /-- once the winning call has returned outside of a region, nobody is parked -/
  woken : s.returned = true → (∀ win ∈ s.wins, win.deferred = false) →
    s.flag = true ∧ ∀ w, s.task w ≠ .parked
  /-- a task that was made runnable reads the payload -/
  resumed : ∀ w, s.task w = .runnable → ∀ must,
    ((machine e).exec s (.replicate 4 (.task w must))).map (·.task w) = some (.done s.fut.read)
  /-- whoever has read has read the payload -/
  reads : ∀ w outcome, s.task w = .done outcome →
    outcome = .interrupted ∨ s.fut.state ≠ .pending ∧ outcome = s.fut.read

theorem Kept.trans {s s' s'' : State T W V X M G K} (first : Kept s s') (second : Kept s' s'') :
    Kept s s'' :=
  ⟨second.1.trans first.1, second.2.1.trans first.2.1, second.2.2.1.trans first.2.2.1,
    second.2.2.2.1.trans first.2.2.2.1, second.2.2.2.2.trans first.2.2.2.2⟩

variable {e : Exceptions X C} {s : State T W V X M G K}

theorem exec_kept [DecidableEq T] [DecidableEq W] [DecidableEq G] (done : s.fut.state ≠ .pending)
    {steps : List (Act T W V X C M G K)}
    {s' : State T W V X M G K} (executed : (machine e).exec s steps = some s') : Kept s s' :=
  Machine.exec_invariant (Kept s)
    (fun _ _ _ kept taken => kept.trans (step_kept taken (by rw [kept.1]; exact done)))
    (.of_eq rfl rfl) executed

/-- The rest of an await, from the run queue to the payload. -/
theorem exec_resumed [DecidableEq T] [DecidableEq W] [DecidableEq G] {w : W} (must : Bool)
    (at_ : s.task w = .runnable) (flag : s.flag = true) :
    ((machine e).exec s (.replicate 4 (.task w must))).map (·.task w) =
      some (.done s.fut.read) := by
  simp [List.replicate, Machine.exec, machine, step, taskStep, State.setTask, at_, flag]

theorem contract_of [DecidableEq T] [DecidableEq W] [DecidableEq G] (woken : Woken s)
    (watched : Watched s) (listed : Listed s) :
    Contract e s where
  single := by
    rcases woken.wins with ⟨pending, empty, -⟩ | ⟨done, win, one, -⟩
    · rw [empty]
      exact ⟨Nat.zero_le 1, fun _ => pending, fun _ => rfl⟩
    · rw [one]
      exact ⟨Nat.le_refl 1, by rintro ⟨⟩, fun pending => absurd pending done⟩
  payload := by
    intro win member
    rcases woken.wins with ⟨-, empty, -⟩ | ⟨-, one, only, read⟩
    · rw [empty] at member
      cases member
    · rw [only] at member
      exact List.mem_singleton.mp member ▸ read
  frozen := fun done _ _ executed => exec_kept done executed
  loses := by
    intro t op at_ done
    simp only [step, threadStep, at_, completeStep, if_neg done]
  atMostOnce := fun id => (listed.once id).le_one .queued
  removedNever := by
    intro id member
    have here : shelves s id .removed ≠ 0 := Nat.ne_of_gt (List.count_pos_iff.mpr member)
    have unqueued := (listed.once id).apart here (q := .queued) (by rintro ⟨⟩)
    refine ⟨unqueued, ?_⟩
    intro t schedules
    have zero := (listed.once id).apart here (q := .thread t) (by rintro ⟨⟩)
    exact Nat.ne_of_gt schedules zero
  scheduled := by
    intro done id issued kept
    obtain ⟨p, one, -⟩ := listed.once id
    cases p with
    | unborn =>
        rw [shelves, if_neg (by omega)] at one
        cases one
    | listed =>
        rw [shelves, listed.emptied done] at one
        cases one
    | removed =>
        rw [shelves, List.count_eq_zero.mpr kept] at one
        cases one
    | thread t => exact .inr ⟨t, Nat.lt_of_lt_of_eq Nat.zero_lt_one one.symm⟩
    | queued => exact .inl one
  event := woken.done_of_flag
  woken := by
    intro back now
    obtain ⟨some, told⟩ := woken.returned back
    obtain ⟨win, member⟩ := List.exists_mem_of_ne_nil _ some
    have woke := told win member (now win member)
    refine ⟨woke.1, ?_⟩
    intro w parked
    have member := (watched.parked w).mp parked
    rw [(watched.told woke).1] at member
    cases member
  resumed := by
    intro w at_ must
    exact exec_resumed must at_ (watched.saw w (by rw [at_]; rfl))
  reads := watched.outcome

theorem fresh_woken : Woken (fresh : State T W V X M G K) := by
  have unwoken : ¬Woke (fresh : State T W V X M G K) := by
    rintro ⟨⟨⟩, -⟩
  refine ⟨⟨.due, rfl, ?_⟩, .inl ⟨rfl, rfl, rfl⟩, by rintro _ ⟨⟩, by rintro _ ⟨⟩, by rintro _ _ _ ⟨⟩,
    by rintro _ _ _ ⟨⟩, by rintro ⟨⟩⟩
  intro p notDue
  cases p with
  | due => exact absurd rfl notDue
  | carried t | given t => rfl
  | done => rw [spots, if_neg unwoken]

theorem fresh_watched : Watched (fresh : State T W V X M G K) := by
  refine ⟨?_, ?_, ?_, List.nodup_nil, fun _ => ⟨rfl, by rintro _ ⟨⟩⟩, by rintro _ ⟨⟩,
    by rintro _ _ ⟨⟩⟩
  · intro t
    exact ⟨by rintro ⟨⟩, by rintro ⟨_, ⟨⟩⟩⟩
  · intro w
    exact ⟨by rintro ⟨⟩, by rintro (⟨⟨⟩⟩ | ⟨⟨⟩⟩)⟩
  · intro w
    exact ⟨by rintro ⟨⟩, by rintro ⟨⟩⟩

theorem fresh_listed : Listed (fresh : State T W V X M G K) := by
  refine ⟨?_, fun _ => rfl⟩
  intro id
  have unborn : shelves (fresh : State T W V X M G K) id .unborn = 1 := by
    rw [shelves]
    exact if_pos (Nat.zero_le id)
  refine ⟨.unborn, unborn, ?_⟩
  intro p notUnborn
  cases p with
  | unborn => exact absurd rfl notUnborn
  | listed | removed | thread t | queued => rfl

end Contract

/-! ## A run -/

/-- `StopIteration` is the exception `0`. -/
def exceptions : Exceptions Nat Unit where
  make := fun _ => 1
  stopIteration := fun exception => exception = 0

/-- A task parks on the future, a callback is registered; `true` completes the
future while `false`, which comes later, tries to cancel it.  The callback that
`false` then registers is scheduled at once. -/
def completingRun : List (Act Bool Unit Nat Nat Unit Unit Nat Unit) :=
  List.flatten
    [.await () :: .replicate 5 (.task () false),
      [.call false (.addDoneCallback 1 ()), .thread false],
      [.call true (.setResult 7), .call false (.cancel none)],
      .replicate 7 (.thread true),
      [.thread false],
      .call false (.addDoneCallback 2 ()) :: .replicate 2 (.thread false),
      .replicate 4 (.task () false)]

theorem completingRun_ends :
    ((machine exceptions).exec fresh completingRun).any (fun s =>
      s.task () = .done (.returned (some 7)) ∧ s.returned = true ∧ s.wins.length = 1 ∧
        s.queue.map Entry.fn = [1, 2] ∧ s.reply true = some .none_) = true := by
  decide +kernel

end MtAsyncio.Futures
