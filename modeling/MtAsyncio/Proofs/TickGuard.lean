/-
Module: MtAsyncio.Proofs.TickGuard
Purpose: What the tick guard of `clear` is worth.  Every `set_readiness` moves the tick of
  the word on by one, and the tick is eight bits wide, so a `clear` takes the bits of
  later edges exactly when their number is a multiple of 256.
Trusted boundary: none
Main exports: tickOf_setReadiness, clear_eq_self_iff, Edges, Traced, traced_step,
  clear_keeps_edges_iff
-/
import MtAsyncio.Proofs.ReadinessHandshake

namespace MtAsyncio.ScheduledIo

open Lib (Machine)

variable {T V : Type} [DecidableEq T] {poller t : T} {s s' : State T V} {a : Act T V}
variable {word mask ready : BitVec 64} {d : Direction} {tick : BitVec 8} {n : Nat}

/-! ## The tick of the word -/

theorem tickOf_getLsbD (word : BitVec 64) {i : Nat} (inTick : i < 8) :
    (tickOf word).getLsbD i = word.getLsbD (6 + i) := by
  have inMask : Ready.tickMask.getLsbD (6 + i) = true := by
    rw [tickMask_getLsbD]
    exact decide_eq_true (by omega)
  simp only [tickOf, Ready.tickShift, BitVec.getLsbD_setWidth, BitVec.getLsbD_ushiftRight,
    BitVec.getLsbD_and, inMask, Bool.and_true, decide_eq_true inTick, Bool.true_and]

/-- The tick is all that it says of a word. -/
theorem tickOf_congr {left right : BitVec 64}
    (same : ∀ i, 6 ≤ i → i < 14 → left.getLsbD i = right.getLsbD i) :
    tickOf left = tickOf right := by
  apply BitVec.eq_of_getLsbD_eq
  intro i inTick
  rw [tickOf_getLsbD left inTick, tickOf_getLsbD right inTick]
  exact same (6 + i) (by omega) (by omega)

/-- No readiness and no shutdown bit is one of the tick's. -/
theorem getLsbD_of_apart (apart : mask &&& Ready.tickMask = 0) {i : Nat} (low : 6 ≤ i)
    (high : i < 14) : mask.getLsbD i = false := by
  by_contra set
  refine and_ne_zero_iff.mpr ⟨i, Bool.not_eq_false _ ▸ set, ?_⟩ apart
  rw [tickMask_getLsbD]
  exact decide_eq_true ⟨low, high⟩

theorem mask_apart (d : Direction) : d.mask &&& Ready.tickMask = 0 := by
  cases d <;> decide

theorem readinessFromEvent_apart (event : PollEvent) :
    readinessFromEvent event &&& Ready.tickMask = 0 := by
  obtain ⟨readable, writable, readClosed, writeClosed, error⟩ := event
  cases readable <;> cases writable <;> cases readClosed <;> cases writeClosed <;>
    cases error <;> decide

/-- `set_readiness` moves the tick on by one, past `0xff` to `0`. -/
theorem tickOf_setReadiness (word : BitVec 64) (apart : ready &&& Ready.tickMask = 0) :
    tickOf (setReadiness word ready) = tickOf word + 1 := by
  apply BitVec.eq_of_getLsbD_eq
  intro i inTick
  have inMask : Ready.tickMask.getLsbD (6 + i) = true := by
    rw [tickMask_getLsbD]
    exact decide_eq_true (by omega)
  have notReady : ready.getLsbD (6 + i) = false := getLsbD_of_apart apart (by omega) (by omega)
  have inWord : 6 + i < 64 ∧ i < 64 ∧ ¬6 + i < 6 := by omega
  rw [tickOf_getLsbD _ inTick]
  simp only [setReadiness, Ready.tickShift, BitVec.getLsbD_or, BitVec.getLsbD_and,
    BitVec.getLsbD_not, inMask, notReady, BitVec.getLsbD_shiftLeft, BitVec.getLsbD_setWidth,
    Nat.add_sub_cancel_left]
  simp [inWord]

theorem tickOf_or (word : BitVec 64) (apart : ready &&& Ready.tickMask = 0) :
    tickOf (word ||| ready) = tickOf word := by
  apply tickOf_congr
  intro i low high
  simp [getLsbD_of_apart apart low high]

theorem tickOf_and_not (word : BitVec 64) (apart : mask &&& Ready.tickMask = 0) :
    tickOf (word &&& ~~~mask) = tickOf word := by
  apply tickOf_congr
  intro i low high
  have inWord : i < 64 := by omega
  simp only [BitVec.getLsbD_and, BitVec.getLsbD_not, getLsbD_of_apart apart low high, inWord,
    decide_true, Bool.not_false, Bool.and_true]

theorem tickOf_clear (word : BitVec 64) (d : Direction) (tick : BitVec 8) :
    tickOf (clear word d.mask tick) = tickOf word := by
  unfold clear
  split
  · rfl
  · exact tickOf_and_not word (mask_apart d)

theorem tickOf_consume (word : BitVec 64) (d : Direction) :
    tickOf (consume word d.mask).1 = tickOf word := by
  unfold consume
  split
  · rfl
  · exact tickOf_and_not word (mask_apart d)

/-- `clear` leaves a word alone whose tick is another one, and a word in which
there is nothing to clear. -/
theorem clear_eq_self_iff :
    clear word mask tick = word ↔ tickOf word ≠ tick ∨ word &&& mask = 0 := by
  have none_cleared : word &&& ~~~mask = word ↔ word &&& mask = 0 := by
    constructor
    · intro same
      rw [← same, BitVec.and_assoc, BitVec.and_comm (~~~mask), BitVec.and_not_self]
      exact BitVec.and_zero
    · intro none_
      apply BitVec.eq_of_getLsbD_eq
      intro i inWord
      have bit := congrArg (fun x => x.getLsbD i) none_
      simp only [BitVec.getLsbD_and, BitVec.ofNat_eq_ofNat, BitVec.getLsbD_zero] at bit
      cases inW : word.getLsbD i <;> simp_all
  unfold clear
  split
  · rename_i newer
    exact ⟨fun _ => .inl newer, fun _ => rfl⟩
  · rename_i same
    rw [none_cleared]
    exact ⟨.inr, fun either => either.resolve_left same⟩

/-- Moving a tick on by `k` makes another one of it unless `k` is a multiple of 256. -/
theorem add_ofNat_eq_self_iff (tick : BitVec 8) (k : Nat) :
    tick + BitVec.ofNat 8 k = tick ↔ 256 ∣ k := by
  have moved : tick + BitVec.ofNat 8 k = tick ↔ BitVec.ofNat 8 k = 0 := by
    constructor
    · intro same
      have back := congrArg (fun x => x - tick) same
      simpa [BitVec.add_comm tick, BitVec.add_sub_cancel] using back
    · intro none_
      rw [none_]
      simp
  rw [moved, ← BitVec.toNat_inj]
  simp only [BitVec.toNat_ofNat, BitVec.ofNat_eq_ofNat]
  omega

/-! ## The edges between a tick and its `clear` -/

/-- The readiness word may be any word when the machine starts, and so may the
ticks, the slots and the counts. -/
def anyWord (poller : T) : Machine (State T V) (Act T V) where
  start s := ∀ t, s.pc t = .outside
  step := step poller

/-- How many `set_readiness` calls there were, and how many of them there had
been when `current_tick` read the tick that a thread has in its hands, and the
tick that is recorded for a direction. -/
structure Edges (T : Type) where
  count : Nat := 0
  loaded : T → Option Nat := fun _ => none
  stored : Direction → Option Nat := fun _ => none

def Edges.record (h : Edges T) (s : State T V) : Act T V → State T V → Edges T
  | .poll _, _ => { h with count := h.count + 1 }
  | .clear t d, _ => { h with loaded := Function.update h.loaded t (h.stored d) }
  | .thread t, _ =>
      match s.pc t with
      | .currentTick _ => { h with loaded := Function.update h.loaded t (some h.count) }
      | .storeTick d _ => { h with stored := Function.update h.stored d (h.loaded t) }
      | _ => h
  | _, _ => h

def edges (poller : T) : Machine (State T V × Edges T) (Act T V) :=
  (anyWord poller).recording {} Edges.record

theorem edges_start : (edges poller).start ((fresh : State T V), {}) :=
  ⟨fun _ => rfl, rfl⟩

/-- The tick that a thread is about to store or to clear for. -/
def Pc.held : Pc V → Option (BitVec 8)
  | .storeTick _ tick | .clear _ tick => some tick
  | _ => none

/-- A tick read after `n` edges is behind that of the word by the edges since. -/
def Behind (s : State T V) (h : Edges T) (tick : BitVec 8) (n : Nat) : Prop :=
  n ≤ h.count ∧ tickOf s.readiness = tick + BitVec.ofNat 8 (h.count - n)

structure Traced (s : State T V) (h : Edges T) : Prop where
  held : ∀ t tick n, (s.pc t).held = some tick → h.loaded t = some n → Behind s h tick n
  stored : ∀ d n, h.stored d = some n → Behind s h (s.tick d) n

omit [DecidableEq T] in
theorem Behind.same {h h' : Edges T} (behind : Behind s h tick n)
    (word : tickOf s'.readiness = tickOf s.readiness) (count : h'.count = h.count) :
    Behind s' h' tick n := by
  unfold Behind
  rw [word, count]
  exact behind

/-- What a step leaves alone that neither reads, stores or loads a tick nor is
an edge. -/
structure Unnoticed (s s' : State T V) : Prop where
  word : tickOf s'.readiness = tickOf s.readiness
  tick : s'.tick = s.tick
  held : ∀ u tick, (s'.pc u).held = some tick → (s.pc u).held = some tick

theorem Unnoticed.goto {b : State T V} {pc : Pc V} (word : tickOf b.readiness = tickOf s.readiness)
    (ticks : b.tick = s.tick) (pcs : b.pc = s.pc) (empty : pc.held = none) :
    Unnoticed s (b.goto t pc) where
  word := word
  tick := ticks
  held := by
    intro u tick holds
    by_cases self : u = t
    · subst self
      simp only [State.goto, Function.update_self, empty] at holds
      cases holds
    · simpa only [State.goto, Function.update_of_ne self, pcs] using holds

/-- What a step does to the ticks. -/
inductive TickMove (poller : T) (s : State T V) : Act T V → State T V → Prop where
  | unnoticed {a : Act T V} {s' : State T V} (unnoticed : Unnoticed s s')
      (unrecorded : ∀ h, Edges.record h s a s' = h) : TickMove poller s a s'
  | reads {t : T} {d : Direction} (at_ : s.pc t = .currentTick d) :
      TickMove poller s (.thread t) (s.goto t (.storeTick d (tickOf s.readiness)))
  | stores {t : T} {d : Direction} {tick : BitVec 8} (at_ : s.pc t = .storeTick d tick) :
      TickMove poller s (.thread t)
        ({ s with tick := Function.update s.tick d tick }.goto t .outside)
  | loads {t : T} {d : Direction} :
      TickMove poller s (.clear t d) (s.goto t (.clear d (s.tick d)))
  | edge {event : PollEvent} :
      TickMove poller s (.poll event)
        ({ s with readiness := setReadiness s.readiness (readinessFromEvent event) }.goto poller
          (.polled (readinessFromEvent event)))

theorem tickMove_of_threadStep (taken : threadStep s t = some s') :
    TickMove poller s (.thread t) s' := by
  unfold threadStep at taken
  cases at_ : s.pc t <;> simp only [at_] at taken
  case outside => cases taken
  case currentTick d =>
    cases taken
    exact .reads at_
  case storeTick d tick =>
    cases taken
    exact .stores at_
  case clear d tick =>
    cases taken
    refine .unnoticed (.goto (tickOf_clear s.readiness d tick) rfl rfl rfl) ?_
    simp [Edges.record, at_]
  case fastCheck k d v =>
    refine .unnoticed ?_ (by simp [Edges.record, at_])
    split at taken
    · cases taken
      exact .goto rfl rfl rfl rfl
    · cases k <;> cases taken <;> exact .goto rfl rfl rfl rfl
  case allocate | store =>
    cases taken
    exact .unnoticed (.goto rfl rfl rfl rfl) (by simp [Edges.record, at_])
  case recheck | unlock =>
    cases taken
    refine .unnoticed (.goto rfl rfl rfl ?_) (by simp [Edges.record, at_])
    split <;> rfl
  case lock | polled | shut =>
    refine .unnoticed ?_ (by simp [Edges.record, at_])
    split at taken
    · cases taken
    · cases taken
      exact .goto rfl rfl rfl rfl

theorem tickMove_of_step (taken : step poller s a = some s') : TickMove poller s a s' := by
  cases a with
  | thread t => exact tickMove_of_threadStep taken
  | clear t d =>
      simp only [step] at taken
      split at taken <;> cases taken
      exact .loads
  | poll event =>
      simp only [step] at taken
      split at taken <;> cases taken
      exact .edge
  | arm | outOfMemory =>
      simp only [step] at taken
      split at taken <;> cases taken
      exact .unnoticed (.goto rfl rfl rfl rfl) fun _ => rfl
  | consume t d =>
      simp only [step] at taken
      split at taken <;> cases taken
      exact .unnoticed ⟨tickOf_consume s.readiness d, rfl, fun _ _ => id⟩ fun _ => rfl
  | shutdown t =>
      simp only [step] at taken
      split at taken <;> cases taken
      exact .unnoticed (.goto (tickOf_or s.readiness (by decide)) rfl rfl rfl) fun _ => rfl

omit [DecidableEq T] in
/-- One more edge: every tick is one more behind. -/
theorem Behind.edge {h : Edges T} {event : PollEvent} (behind : Behind s h tick n)
    (word : s'.readiness = setReadiness s.readiness (readinessFromEvent event)) :
    Behind s' { h with count := h.count + 1 } tick n := by
  obtain ⟨low, apart⟩ := behind
  refine ⟨Nat.le_succ_of_le low, ?_⟩
  have further : h.count + 1 - n = h.count - n + 1 := by omega
  rw [word, tickOf_setReadiness _ (readinessFromEvent_apart event), apart, BitVec.add_assoc]
  exact congrArg (tick + ·) (further ▸ (BitVec.ofNat_add (h.count - n) 1).symm)

theorem traced_step {h : Edges T} (traced : Traced s h) (move : TickMove poller s a s') :
    Traced s' (h.record s a s') := by
  cases move with
  | unnoticed unnoticed unrecorded =>
      rw [unrecorded]
      refine ⟨?_, ?_⟩
      · intro u tick n holds loaded
        exact (traced.held u tick n (unnoticed.held u tick holds) loaded).same unnoticed.word rfl
      · intro d n stored
        rw [unnoticed.tick]
        exact (traced.stored d n stored).same unnoticed.word rfl
  | @reads t d at_ =>
      simp only [Edges.record, at_]
      refine ⟨?_, fun d n stored => (traced.stored d n stored).same rfl rfl⟩
      intro u tick n holds loaded
      by_cases self : u = t
      · subst self
        simp only [State.goto, Function.update_self, Pc.held, Option.some.injEq] at holds loaded
        subst holds loaded
        exact ⟨Nat.le_refl _, by simp [State.goto]⟩
      · simp only [State.goto, Function.update_of_ne self] at holds loaded
        exact (traced.held u tick n holds loaded).same rfl rfl
  | @stores t d tick at_ =>
      -- the cell of `d` takes over the record of the thread that stores
      simp only [Edges.record, at_]
      refine ⟨?_, ?_⟩
      · intro u tick' n holds loaded
        by_cases self : u = t
        · subst self
          simp only [State.goto, Function.update_self, Pc.held] at holds
          cases holds
        · simp only [State.goto, Function.update_of_ne self] at holds
          exact (traced.held u tick' n holds loaded).same rfl rfl
      · intro e n stored
        by_cases same : e = d
        · subst same
          simp only [Function.update_self] at stored
          have holds : (s.pc t).held = some tick := by rw [at_]; rfl
          have behind := traced.held t tick n holds stored
          simp only [State.goto, Function.update_self]
          exact behind.same rfl rfl
        · simp only [Function.update_of_ne same] at stored
          simp only [State.goto, Function.update_of_ne same]
          exact (traced.stored e n stored).same rfl rfl
  | @loads t d =>
      refine ⟨?_, fun e n stored => (traced.stored e n stored).same rfl rfl⟩
      intro u tick n holds loaded
      by_cases self : u = t
      · subst self
        simp only [Edges.record, State.goto, Function.update_self, Pc.held,
          Option.some.injEq] at holds loaded
        subst holds
        exact (traced.stored d n loaded).same rfl rfl
      · simp only [Edges.record, State.goto, Function.update_of_ne self] at holds loaded
        exact (traced.held u tick n holds loaded).same rfl rfl
  | edge =>
      refine ⟨?_, ?_⟩
      · intro u tick n holds loaded
        by_cases self : u = poller
        · subst self
          simp only [State.goto, Function.update_self, Pc.held] at holds
          cases holds
        · simp only [State.goto, Function.update_of_ne self] at holds
          exact (traced.held u tick n holds loaded).edge rfl
      · intro d n stored
        exact (traced.stored d n stored).edge rfl

theorem traced_of_reachable {p : State T V × Edges T} (reached : (edges poller).Reachable p) :
    Traced p.1 p.2 := by
  refine Machine.Reach.recorded Traced ?_ ?_ reached
  · rintro s outside
    refine ⟨fun t tick n holds => ?_, ?_⟩
    · rw [outside t] at holds
      cases holds
    · rintro d n ⟨⟩
  · intro s h a s' _ traced _ taken
    exact traced_step traced (tickMove_of_step taken)

/-- A `clear` leaves the word as it is if and only if the number of edges since
the tick it clears for was read is no multiple of 256, or no bit of the
direction is set; so it is for every number of edges, in every run from any
word, whatever other threads do in between. -/
theorem clear_keeps_edges_iff {p : State T V × Edges T} (reached : (edges poller).Reachable p)
    (clearing : p.1.pc t = .clear d tick) (recorded : p.2.loaded t = some n)
    (taken : step poller p.1 (.thread t) = some s') :
    s'.readiness = p.1.readiness ↔
      ¬256 ∣ p.2.count - n ∨ p.1.readiness &&& d.mask = 0 := by
  have traced := traced_of_reachable reached
  have behind := traced.held t tick n (by rw [clearing]; rfl) recorded
  have cleared : s'.readiness = clear p.1.readiness d.mask tick := by
    simp only [step, threadStep, clearing, Option.some.injEq] at taken
    rw [← taken]
    rfl
  rw [cleared, clear_eq_self_iff, behind.2, ne_eq, add_ofNat_eq_self_iff]

/-! ### One edge and 256 of them -/

/-- The fd becomes readable, and the poll thread wakes whoever waits for it. -/
def readableEdge : List (Act Nat Unit) :=
  [.poll ⟨true, false, false, false, false⟩, .thread 0]

/-- A callback is armed on a readable fd, `later` edges come, and `clear_r`
loads its tick. -/
def armThenEdges (later : Nat) : List (Act Nat Unit) :=
  readableEdge ++ [.arm 1 .callback .read (), .thread 1, .thread 1, .thread 1] ++
    (List.replicate later readableEdge).flatten ++ [.clear 1 .read]

/-- Thread 1 is about to clear for the tick that it read after one edge, and
there have been `later` more. -/
def ClearsAfter (later : Nat) (p : State Nat Unit × Edges Nat) : Prop :=
  p.1.pc 1 = .clear .read 1 ∧ p.2.loaded 1 = some 1 ∧ p.2.count = 1 + later

instance (later : Nat) (p : State Nat Unit × Edges Nat) : Decidable (ClearsAfter later p) :=
  inferInstanceAs (Decidable (_ ∧ _ ∧ _))

theorem armThenEdges_one :
    ((edges 0).exec (fresh, {}) (armThenEdges 1)).any (fun p => ClearsAfter 1 p) = true := by
  decide +kernel

theorem clear_keeps_edges_after_one :
    ∃ (p : State Nat Unit × Edges Nat) (s' : State Nat Unit), (edges 0).Reachable p ∧
      ClearsAfter 1 p ∧ step 0 p.1 (.thread 1) = some s' ∧ s'.readiness = p.1.readiness := by
  obtain ⟨p, reached, ends⟩ :=
    Machine.Reachable.exists_of_exec edges_start armThenEdges_one
  have clears : ClearsAfter 1 p := of_decide_eq_true ends
  obtain ⟨clearing, recorded, count⟩ := clears
  have taken : step 0 p.1 (.thread 1) = some ({ p.1 with
      readiness := clear p.1.readiness Direction.read.mask 1 }.goto 1 .outside) := by
    simp only [step, threadStep, clearing]
  refine ⟨p, _, reached, ⟨clearing, recorded, count⟩, taken, ?_⟩
  refine (clear_keeps_edges_iff reached clearing recorded taken).mpr (.inl ?_)
  rw [count]
  decide

theorem armThenEdges_wrap :
    ((edges 0).exec (fresh, {}) (armThenEdges 256)).any (fun p =>
      ClearsAfter 256 p ∧
        (threadStep p.1 1).any fun s' => s'.readiness != p.1.readiness) = true := by
  decide +kernel

/-- After 256 edges the tick is what it was, and the bits of the last of them
are gone. -/
theorem clear_discards_edges_of_wrap :
    ¬∀ (p : State Nat Unit × Edges Nat) (t : Nat) (d : Direction) (tick : BitVec 8) (n : Nat)
        (s' : State Nat Unit), (edges 0).Reachable p → p.1.pc t = .clear d tick →
      p.2.loaded t = some n → n < p.2.count → step 0 p.1 (.thread t) = some s' →
        s'.readiness = p.1.readiness := by
  intro keeps
  obtain ⟨p, reached, ends⟩ :=
    Machine.Reachable.exists_of_exec edges_start armThenEdges_wrap
  obtain ⟨clears, discards⟩ := of_decide_eq_true ends
  obtain ⟨clearing, recorded, count⟩ := clears
  obtain ⟨s', taken, changed⟩ := (Option.any_eq_true _ _).mp discards
  have later : 1 < p.2.count := by omega
  exact bne_iff_ne.mp changed (keeps p 1 .read 1 1 s' reached clearing recorded later taken)

end MtAsyncio.ScheduledIo
