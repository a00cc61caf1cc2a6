/-
Module: MtAsyncio.Proofs.StreamBytes
Purpose: What a `StreamReader` does to the bytes it is fed.  As long as no feed
  lands between the test and the clear of `readexactly`, nor between a short
  copy and the delete of `read`, the bytes handed out, those taken by the call
  in progress and the buffer are together the bytes fed, in order.  A feed that
  does land there is lost, or makes `readexactly` return too much.
Trusted boundary: none
Main exports: Pc.taken, spaced, Conserved, conserved_step, stream_keeps_bytes,
  feed_lost_in_gap
-/
import MtAsyncio.Model.Streams

namespace MtAsyncio.Streams

open Lib (Machine)
open Tasks (FutState)

variable {s s' : State}

/-! ## Where the bytes are -/

def Read.blocks : Read → Bytes
  | .upTo _ => []
  | .all _ blocks => blocks

def Caller.blocks : Caller → Bytes
  | .read r => r.blocks
  | .readexactly _ => []

/-- The bytes that the call in progress has taken out of the buffer. -/
def Pc.taken : Pc → Bytes
  | .readEnter _ blocks => blocks
  | .readBuffer r | .readEof r | .readCopy r | .readDelete r _ => r.blocks
  | .wait c _ => c.blocks
  | .maybeResume c data | .resume c data => c.blocks ++ data
  | _ => []

/-- The bytes handed to the reading task so far. -/
def State.delivered (s : State) : Bytes :=
  s.answers.flatMap Answer.data

/-- Inside of a `read` of everything, which keeps what it has collected in a
local list. -/
def Caller.draining : Caller → Bool
  | .read (.all _ _) => true
  | _ => false

def Pc.draining : Pc → Bool
  | .readEnter _ _ => true
  | .readBuffer r | .readEof r | .readCopy r | .readDelete r _ => (Caller.read r).draining
  | .wait c _ | .maybeResume c _ | .resume c _ => c.draining
  | _ => false

/-- A feed may land here. -/
def feedable (s : State) : Bool :=
  match s.pc with
  | .copyAll _ | .clearAll _ _ => false
  | .readDelete r data => r.size s.limit ≤ data.length
  | _ => true

/-- No data lands between the length test and the clear of `readexactly`, nor
between the copy and the delete of a `read` that copied less than it asked for;
and no exception or cancellation cuts a `read` of everything short. -/
def spaced (s : State) : Act → Bool
  | .feedData data => data = [] || feedable s
  | .setException | .cancel => !s.pc.draining
  | _ => true

/-! ## The invariant -/

def Caller.Filled : Caller → Bytes → Prop
  | .read _, _ => True
  | .readexactly n, data => data.length = n

/-- What the local variables of the reading task say about the buffer. -/
def Placed (limit : Nat) (buffer : Bytes) (eof : Bool) : Pc → Prop
  | .readDelete r data => data = buffer.take (r.size limit)
  | .incompleteCopy _ => eof = true
  | .incompleteClear _ data => eof = true ∧ data = buffer
  | .copyAll n => buffer.length = n
  | .clearAll n data => data = buffer ∧ buffer.length = n
  | .exactEqual n | .copyPrefix n => n ≤ buffer.length
  | .deletePrefix n data => data = buffer.take n ∧ n ≤ buffer.length
  | .maybeResume c data | .resume c data => c.Filled data
  | _ => True

/-- `_waiter` is set only while the reading task is parked or about to clear
it. -/
def Pc.mayWait : Pc → Bool
  | .wait _ .parked | .wait _ .dropWaiter => true
  | _ => false

/-- Parked, or on the way out of the await. -/
def Pc.awaiting : Pc → Bool
  | .wait _ .parked | .wait _ .dropWaiter | .wait _ .catchUp => true
  | _ => false

def Pc.awaited : Pc → Bool
  | .wait _ .dropWaiter | .wait _ .catchUp => true
  | _ => false

/-- The fields after `placed` keep a `read` of everything from raising, which
would drop the bytes it has collected. -/
structure Conserved (s : State) : Prop where
  law : s.delivered ++ s.pc.taken ++ s.buffer = s.fed
  exact : ∀ n data, .returned (.readexactly n) data ∈ s.answers → (data.length : Int) = n
  placed : Placed s.limit s.buffer s.eof s.pc
  waiter : s.waiter = true → s.pc.mayWait = true
  unbroken : s.pc.draining = true → s.exception = false
  unharmed : s.pc.draining = true → s.pc.awaiting = true → s.fut = .pending ∨ s.fut = .finished
  awaited : s.pc.draining = true → s.pc.awaited = true → s.fut ≠ .pending

/-! ### The feeding side -/

theorem conserved_wakeupWaiter (conserved : Conserved s) {outcome : FutState}
    (completes : s.pc.draining = true → outcome = .finished) :
    Conserved (wakeupWaiter s outcome) := by
  unfold wakeupWaiter
  split
  · refine { conserved with waiter := by simp, unharmed := ?_, awaited := ?_ }
    · intro draining awaiting
      have ends := conserved.unharmed draining awaiting
      rw [completes draining]
      grind
    · intro draining _
      rw [completes draining]
      grind
  · exact conserved

/-- Data at the end of the buffer leaves the local variables right. -/
theorem placed_append (placed : Placed s.limit s.buffer s.eof s.pc) (open_ : s.eof = false)
    (gap : feedable s = true) (data : Bytes) :
    Placed s.limit (s.buffer ++ data) s.eof s.pc := by
  unfold feedable at gap
  cases pc : s.pc with
  | readDelete r copied =>
      simp only [pc, Placed, decide_eq_true_eq] at placed gap ⊢
      rw [placed, List.length_take] at gap
      rw [placed, List.take_append_of_le_length (by omega)]
  | incompleteCopy n | incompleteClear n copied =>
      simp [pc, Placed, open_] at placed
  | copyAll n | clearAll n copied =>
      simp [pc] at gap
  | exactEqual n | copyPrefix n =>
      simp only [pc, Placed, List.length_append] at placed ⊢
      omega
  | deletePrefix n copied =>
      simp only [pc, Placed, List.length_append] at placed ⊢
      refine ⟨?_, by omega⟩
      rw [placed.1, List.take_append_of_le_length placed.2]
  | maybeResume c taken | resume c taken => simpa only [pc, Placed] using placed
  | _ => trivial

theorem conserved_feedData (conserved : Conserved s) {data : Bytes}
    (gap : spaced s (.feedData data) = true) : Conserved (feedData s data) := by
  unfold feedData
  have bumped : Conserved { s with feedGen := s.feedGen + 1 } := { conserved with }
  simp only
  split
  · exact bumped
  · rename_i fed
    obtain ⟨open_, nonempty⟩ : s.eof = false ∧ data ≠ [] := by simpa using fed
    have allowed : feedable s = true := by simpa [spaced, nonempty] using gap
    have extended : Conserved { s with
        feedGen := s.feedGen + 1
        buffer := s.buffer ++ data
        fed := s.fed ++ data } :=
      { conserved with
        law := by
          show s.delivered ++ s.pc.taken ++ (s.buffer ++ data) = s.fed ++ data
          rw [← List.append_assoc, conserved.law]
        placed := placed_append conserved.placed open_ allowed data }
    have woken : Conserved (wakeupWaiter _ .finished) :=
      conserved_wakeupWaiter extended fun _ => rfl
    split
    · exact { woken with }
    · exact woken

theorem conserved_feedEof (conserved : Conserved s) : Conserved (feedEof s) := by
  have ended : Conserved { s with feedGen := s.feedGen + 1, eof := true } :=
    { conserved with
      placed := by
        have placed := conserved.placed
        revert placed
        show Placed s.limit s.buffer s.eof s.pc → Placed s.limit s.buffer true s.pc
        cases s.pc <;> first | exact id | simp +contextual [Placed] }
  exact conserved_wakeupWaiter ended fun _ => rfl

theorem conserved_setException (conserved : Conserved s) (calm : s.pc.draining = false) :
    Conserved (setException s) := by
  have broken : Conserved { s with feedGen := s.feedGen + 1, exception := true } :=
    { conserved with unbroken := by intro draining; rw [calm] at draining; cases draining }
  exact conserved_wakeupWaiter broken (by intro draining; rw [calm] at draining; cases draining)

/-! ### The reading task -/

theorem Pc.awaiting_of_awaited {pc : Pc} (isAwaited : pc.awaited = true) :
    pc.awaiting = true := by
  unfold awaited at isAwaited
  split at isAwaited <;> first | rfl | cases isAwaited

theorem Conserved.still (conserved : Conserved s) (elsewhere : s.pc.mayWait = false) :
    s.waiter = false := by
  rw [← Bool.not_eq_true]
  intro waits
  rw [conserved.waiter waits] at elsewhere
  cases elsewhere

/-- What a step of the reading task has to show unless it goes to sleep. -/
theorem Conserved.move (conserved : Conserved s)
    (law : s'.delivered ++ s'.pc.taken ++ s'.buffer = s.delivered ++ s.pc.taken ++ s.buffer)
    (fed : s'.fed = s.fed)
    (exact : ∀ n data, .returned (.readexactly n) data ∈ s'.answers →
      .returned (.readexactly n) data ∈ s.answers ∨ (data.length : Int) = n)
    (placed : Placed s'.limit s'.buffer s'.eof s'.pc)
    (still : s'.waiter = false)
    (draining : s'.pc.draining = true → s'.exception = false)
    (notAwaiting : s'.pc.awaiting = false) : Conserved s' where
  law := by rw [law, conserved.law, fed]
  exact := by
    intro n data answered
    rcases exact n data answered with before | now
    · exact conserved.exact n data before
    · exact now
  placed := placed
  waiter := by
    intro waits
    rw [still] at waits
    cases waits
  unbroken := draining
  unharmed := by
    intro _ awaits
    rw [notAwaiting] at awaits
    cases awaits
  awaited := by
    intro _ awaited
    rw [Pc.awaiting_of_awaited awaited] at notAwaiting
    cases notAwaiting

/-- The reading task goes on and takes nothing. -/
theorem Conserved.goto (conserved : Conserved s) {pc : Pc} (taken : pc.taken = s.pc.taken)
    (placed : Placed s.limit s.buffer s.eof pc) (elsewhere : s.pc.mayWait = false)
    (draining : pc.draining = true → s.pc.draining = true) (notAwaiting : pc.awaiting = false) :
    Conserved { s with pc := pc } := by
  refine conserved.move ?_ rfl (fun _ _ => .inl) placed (conserved.still elsewhere)
    (fun drains => conserved.unbroken (draining drains)) notAwaiting
  show s.delivered ++ pc.taken ++ s.buffer = s.delivered ++ s.pc.taken ++ s.buffer
  rw [taken]

/-- A call that has taken nothing may raise. -/
theorem conserved_raise (conserved : Conserved s) (nothing : s.pc.taken = [])
    (still : s.waiter = false) : Conserved (raise s) := by
  refine conserved.move ?_ rfl (fun _ _ => .inl) trivial still (by rintro ⟨⟩) rfl
  show s.delivered ++ [] ++ s.buffer = _
  rw [nothing]

/-- The bytes taken are handed out. -/
theorem conserved_answer (conserved : Conserved s) {a : Answer} (all : a.data = s.pc.taken)
    (exact : ∀ n data, a = .returned (.readexactly n) data → (data.length : Int) = n)
    (still : s.waiter = false) : Conserved (answer s a) := by
  refine conserved.move ?_ rfl ?_ trivial still (by rintro ⟨⟩) rfl
  · show (s.answers ++ [a]).flatMap Answer.data ++ [] ++ s.buffer = _
    rw [List.flatMap_append, List.flatMap_singleton, all, List.append_nil]
    rfl
  · intro n data answered
    rcases List.mem_append.mp answered with before | now
    · exact .inl before
    · exact .inr (exact n data (List.mem_singleton.mp now).symm)

theorem conserved_finish {c : Caller} {data : Bytes} (conserved : Conserved s)
    (taken : s.pc.taken = c.blocks ++ data) (filled : c.Filled data)
    (draining : c.draining = true → s.pc.draining = true) (still : s.waiter = false) :
    Conserved (finish s data c) := by
  cases c with
  | read r =>
      cases r with
      | upTo n => exact conserved_answer conserved taken.symm (by simp) still
      | all n blocks =>
          simp only [finish]
          split
          · rename_i empty
            refine conserved_answer conserved ?_ (by simp) still
            rw [taken, empty, List.append_nil]
            rfl
          · refine conserved.move ?_ rfl (fun _ _ => .inl) trivial still
              (fun _ => conserved.unbroken (draining rfl)) rfl
            show s.delivered ++ (blocks ++ data) ++ s.buffer = _
            rw [taken]
            rfl
  | readexactly n =>
      refine conserved_answer conserved taken.symm ?_ still
      intro m data' same
      cases same
      exact congrArg Int.ofNat filled

theorem conserved_enter (conserved : Conserved s) {call : Call} (pc : s.pc = .enter call) :
    Conserved (enter s call) := by
  have nothing : s.pc.taken = [] := by rw [pc]; rfl
  have still : s.waiter = false := conserved.still (by rw [pc]; rfl)
  have moved : ∀ {next : Pc}, next.taken = [] → Placed s.limit s.buffer s.eof next →
      s.exception = false → next.awaiting = false → Conserved { s with pc := next } := by
    intro next empty placed unbroken notAwaiting
    refine conserved.move ?_ rfl (fun _ _ => .inl) placed still (fun _ => unbroken) notAwaiting
    show s.delivered ++ next.taken ++ s.buffer = _
    rw [empty, nothing]
  cases call with
  | read n =>
      simp only [enter]
      split
      · exact conserved_raise conserved nothing still
      rename_i unbroken
      rw [Bool.not_eq_true] at unbroken
      split
      · exact conserved_answer conserved nothing.symm (by simp) still
      split
      · exact moved rfl trivial unbroken rfl
      · exact moved rfl trivial unbroken rfl
  | readexactly n =>
      simp only [enter]
      split
      · exact conserved_raise conserved nothing still
      split
      · exact conserved_raise conserved nothing still
      rename_i unbroken
      rw [Bool.not_eq_true] at unbroken
      split
      · rename_i zero
        refine conserved_answer conserved nothing.symm ?_ still
        intro m data same
        cases same
        exact zero.symm
      · exact moved rfl trivial unbroken rfl

theorem conserved_decideWait (conserved : Conserved s) {c : Caller} (pc : s.pc = .wait c .decide) :
    Conserved (decideWait s c) := by
  have still : s.waiter = false := conserved.still (by rw [pc]; rfl)
  have draining : c.draining = true → s.exception = false :=
    fun drains => conserved.unbroken (by rw [pc]; exact drains)
  have returns : Conserved { s with seenGen := s.feedGen, pc := c.resumed } := by
    refine conserved.move ?_ rfl (fun _ _ => .inl) ?_ still ?_ ?_
    · show s.delivered ++ c.resumed.taken ++ s.buffer = _
      rw [pc]
      cases c <;> rfl
    · cases c <;> trivial
    · intro drains
      refine draining ?_
      cases c with
      | read r => exact drains
      | readexactly n => cases drains
    · cases c <;> rfl
  unfold decideWait
  simp only
  split
  · exact returns
  split
  · exact returns
  -- the task parks on a new future
  exact
    { law := by
        have law := conserved.law
        rw [pc] at law
        exact law
      exact := conserved.exact
      placed := trivial
      waiter := fun _ => rfl
      unbroken := draining
      unharmed := fun _ _ => .inl rfl
      awaited := by rintro _ ⟨⟩ }

theorem conserved_waitStep (conserved : Conserved s) {c : Caller} {pc : WaitPc}
    (at_ : s.pc = .wait c pc) (taken : waitStep s c pc = some s') : Conserved s' := by
  have drains : c.draining = true → s.pc.draining = true := by
    rw [at_]
    exact id
  have isTaken : s.pc.taken = c.blocks := by rw [at_]; rfl
  cases pc with
  | testWaiter =>
      have still : s.waiter = false := conserved.still (by rw [at_]; rfl)
      rw [waitStep, if_neg (Bool.not_eq_true _ ▸ still)] at taken
      cases taken
      exact conserved.goto isTaken.symm trivial (by rw [at_]; rfl) drains rfl
  | testPaused =>
      simp only [waitStep] at taken
      cases taken
      split
      · exact conserved.goto isTaken.symm trivial (by rw [at_]; rfl) drains rfl
      · exact conserved.goto isTaken.symm trivial (by rw [at_]; rfl) drains rfl
  | unpause | resumeReading =>
      simp only [waitStep] at taken
      cases taken
      refine conserved.move ?_ rfl (fun _ _ => .inl) trivial (conserved.still (by rw [at_]; rfl))
        (fun inAll => conserved.unbroken (drains inAll)) rfl
      show s.delivered ++ c.blocks ++ s.buffer = _
      rw [isTaken]
  | decide =>
      simp only [waitStep] at taken
      cases taken
      exact conserved_decideWait conserved at_
  | parked =>
      simp only [waitStep] at taken
      split at taken
      · cases taken
      · rename_i done
        cases taken
        exact
          { law := by
              have law := conserved.law
              rw [isTaken] at law
              exact law
            exact := conserved.exact
            placed := trivial
            waiter := fun _ => rfl
            unbroken := fun inAll => conserved.unbroken (drains inAll)
            unharmed := fun inAll _ => conserved.unharmed (drains inAll) (by rw [at_]; rfl)
            awaited := fun _ _ => done }
  | dropWaiter =>
      simp only [waitStep] at taken
      cases taken
      exact
        { law := by
            have law := conserved.law
            rw [isTaken] at law
            exact law
          exact := conserved.exact
          placed := trivial
          waiter := by simp
          unbroken := fun inAll => conserved.unbroken (drains inAll)
          unharmed := fun inAll _ => conserved.unharmed (drains inAll) (by rw [at_]; rfl)
          awaited := fun inAll _ => conserved.awaited (drains inAll) (by rw [at_]; rfl) }
  | catchUp =>
      have still : s.waiter = false := conserved.still (by rw [at_]; rfl)
      simp only [waitStep] at taken
      cases taken
      split
      · refine conserved.move ?_ rfl (fun _ _ => .inl) ?_ still ?_ ?_
        · show s.delivered ++ c.resumed.taken ++ s.buffer = _
          rw [isTaken]
          cases c <;> rfl
        · cases c <;> trivial
        · intro inAll
          refine conserved.unbroken (drains ?_)
          cases c with
          | read r => exact inAll
          | readexactly n => cases inAll
        · cases c <;> rfl
      · rename_i notFinished
        -- a read of everything is not woken by an exception or a cancellation
        have nothing : s.pc.taken = [] := by
          rw [isTaken]
          cases c with
          | readexactly n => rfl
          | read r =>
              cases r with
              | upTo n => rfl
              | all n blocks =>
                  rcases conserved.unharmed (drains rfl) (by rw [at_]; rfl) with pending | finished
                  · exact absurd pending (conserved.awaited (drains rfl) (by rw [at_]; rfl))
                  · exact absurd finished notFinished
        exact conserved_raise (s := { s with seenGen := s.feedGen }) { conserved with } nothing
          still

/-- One case for each program counter. -/
theorem conserved_readerStep (conserved : Conserved s) (taken : readerStep s = some s') :
    Conserved s' := by
  unfold readerStep at taken
  cases pc : s.pc with
  | idle => simp [pc] at taken
  | enter call =>
      simp only [pc] at taken
      cases taken
      exact conserved_enter conserved pc
  | readEnter n blocks =>
      have unbroken := conserved.unbroken (by rw [pc]; rfl)
      simp only [pc] at taken
      rw [if_neg (Bool.not_eq_true _ ▸ unbroken)] at taken
      cases taken
      exact conserved.goto (by rw [pc]; rfl) trivial (by rw [pc]; rfl) (by rw [pc]; exact id) rfl
  | readBuffer r =>
      simp only [pc] at taken
      cases taken
      split <;>
        exact conserved.goto (by rw [pc]; rfl) trivial (by rw [pc]; rfl) (by rw [pc]; exact id) rfl
  | readEof r =>
      simp only [pc] at taken
      cases taken
      split <;>
        exact conserved.goto (by rw [pc]; rfl) trivial (by rw [pc]; rfl) (by rw [pc]; exact id) rfl
  | readCopy r =>
      simp only [pc] at taken
      cases taken
      exact conserved.goto (by rw [pc]; rfl) rfl (by rw [pc]; rfl) (by rw [pc]; exact id) rfl
  | readDelete r data =>
      simp only [pc] at taken
      cases taken
      have copied := conserved.placed
      simp only [pc, Placed] at copied
      refine conserved.move ?_ rfl (fun _ _ => .inl) trivial (conserved.still (by rw [pc]; rfl))
        (fun drains => conserved.unbroken (by rw [pc]; exact drains)) rfl
      show s.delivered ++ (r.blocks ++ data) ++ s.buffer.drop (r.size s.limit) =
        s.delivered ++ s.pc.taken ++ s.buffer
      rw [pc, copied, List.append_assoc, List.append_assoc, List.take_append_drop,
        ← List.append_assoc]
      rfl
  | exactTest n =>
      simp only [pc] at taken
      cases taken
      split
      · exact conserved.goto (by rw [pc]; rfl) trivial (by rw [pc]; rfl) (by rintro ⟨⟩) rfl
      · rename_i enough
        exact conserved.goto (by rw [pc]; rfl) (Nat.le_of_not_lt enough) (by rw [pc]; rfl)
          (by rintro ⟨⟩) rfl
  | exactEof n =>
      simp only [pc] at taken
      cases taken
      split
      · rename_i ended
        exact conserved.goto (by rw [pc]; rfl) ended (by rw [pc]; rfl) (by rintro ⟨⟩) rfl
      · exact conserved.goto (by rw [pc]; rfl) trivial (by rw [pc]; rfl) (by rintro ⟨⟩) rfl
  | incompleteCopy n =>
      simp only [pc] at taken
      cases taken
      have ended := conserved.placed
      simp only [pc, Placed] at ended
      exact conserved.goto (by rw [pc]; rfl) ⟨ended, rfl⟩ (by rw [pc]; rfl) (by rintro ⟨⟩) rfl
  | incompleteClear n data =>
      simp only [pc] at taken
      cases taken
      have copied := conserved.placed
      simp only [pc, Placed] at copied
      refine conserved.move ?_ rfl ?_ trivial (conserved.still (by rw [pc]; rfl)) (by rintro ⟨⟩) rfl
      · show (s.answers ++ [Answer.incomplete n data]).flatMap Answer.data ++ [] ++ [] =
          s.delivered ++ s.pc.taken ++ s.buffer
        simp [State.delivered, pc, Pc.taken, Answer.data, copied.2]
      · intro m other answered
        rcases List.mem_append.mp answered with before | now
        · exact .inl before
        · cases List.mem_singleton.mp now
  | exactEqual n =>
      simp only [pc] at taken
      cases taken
      have enough := conserved.placed
      simp only [pc, Placed] at enough
      split
      · rename_i equal
        exact conserved.goto (by rw [pc]; rfl) equal (by rw [pc]; rfl) (by rintro ⟨⟩) rfl
      · exact conserved.goto (by rw [pc]; rfl) enough (by rw [pc]; rfl) (by rintro ⟨⟩) rfl
  | copyAll n =>
      simp only [pc] at taken
      cases taken
      have equal := conserved.placed
      simp only [pc, Placed] at equal
      exact conserved.goto (by rw [pc]; rfl) ⟨rfl, equal⟩ (by rw [pc]; rfl) (by rintro ⟨⟩) rfl
  | clearAll n data =>
      simp only [pc] at taken
      cases taken
      obtain ⟨copied, equal⟩ : data = s.buffer ∧ s.buffer.length = n := by
        have placed := conserved.placed
        rwa [pc] at placed
      refine conserved.move ?_ rfl (fun _ _ => .inl) (copied ▸ equal)
        (conserved.still (by rw [pc]; rfl)) (by rintro ⟨⟩) rfl
      show s.delivered ++ ([] ++ data) ++ [] = s.delivered ++ s.pc.taken ++ s.buffer
      rw [pc, copied, List.nil_append, List.append_nil]
      exact congrArg (· ++ s.buffer) (List.append_nil _).symm
  | copyPrefix n =>
      simp only [pc] at taken
      cases taken
      have enough := conserved.placed
      simp only [pc, Placed] at enough
      exact conserved.goto (by rw [pc]; rfl) ⟨rfl, enough⟩ (by rw [pc]; rfl) (by rintro ⟨⟩) rfl
  | deletePrefix n data =>
      simp only [pc] at taken
      cases taken
      obtain ⟨copied, enough⟩ : data = s.buffer.take n ∧ n ≤ s.buffer.length := by
        have placed := conserved.placed
        rwa [pc] at placed
      refine conserved.move ?_ rfl (fun _ _ => .inl) ?_ (conserved.still (by rw [pc]; rfl))
        (by rintro ⟨⟩) rfl
      · show s.delivered ++ ([] ++ data) ++ s.buffer.drop n = s.delivered ++ s.pc.taken ++ s.buffer
        rw [pc, copied, List.nil_append, List.append_assoc, List.take_append_drop]
        exact congrArg (· ++ s.buffer) (List.append_nil _).symm
      · show data.length = n
        rw [copied, List.length_take, Nat.min_eq_left enough]
  | wait c at_ =>
      simp only [pc] at taken
      exact conserved_waitStep conserved pc taken
  | maybeResume c data =>
      simp only [pc] at taken
      cases taken
      have filled := conserved.placed
      simp only [pc, Placed] at filled
      have still : s.waiter = false := conserved.still (by rw [pc]; rfl)
      split
      · refine conserved.move ?_ rfl (fun _ _ => .inl) filled still
          (fun drains => conserved.unbroken (by rw [pc]; exact drains)) rfl
        show s.delivered ++ (c.blocks ++ data) ++ s.buffer = _
        rw [pc]
        rfl
      · exact conserved_finish conserved (by rw [pc]; rfl) filled (by rw [pc]; exact id) still
  | resume c data =>
      simp only [pc] at taken
      cases taken
      have filled := conserved.placed
      simp only [pc, Placed] at filled
      have resumed : Conserved { s with reading := true } := { conserved with }
      rw [← pc]
      exact conserved_finish resumed (by rw [pc]; rfl) filled (by rw [pc]; exact id)
        (conserved.still (by rw [pc]; rfl))

theorem conserved_step {a : Act} (conserved : Conserved s) (allowed : spaced s a = true)
    (taken : step s a = some s') : Conserved s' := by
  cases a with
  | feedData data =>
      cases taken
      exact conserved_feedData conserved allowed
  | feedEof =>
      cases taken
      exact conserved_feedEof conserved
  | setException =>
      cases taken
      exact conserved_setException conserved (by simpa [spaced] using allowed)
  | cancel =>
      have calm : s.pc.draining = false := by simpa [spaced] using allowed
      simp only [step] at taken
      split at taken
      · split at taken
        · cases taken
          refine { conserved with unharmed := ?_, awaited := ?_ }
          · intro draining
            rw [show s.pc.draining = true from draining] at calm
            cases calm
          · intro draining
            rw [show s.pc.draining = true from draining] at calm
            cases calm
        · cases taken
      · cases taken
  | call c =>
      simp only [step] at taken
      split at taken
      · rename_i pc
        cases taken
        exact conserved.goto (by rw [pc]; rfl) trivial (by rw [pc]; rfl) (by rintro ⟨⟩) rfl
      · cases taken
  | reader => exact conserved_readerStep conserved taken

theorem conserved_fresh (limit : Nat) (transport : Bool) : Conserved (fresh limit transport) where
  law := rfl
  exact := by rintro _ _ ⟨⟩
  placed := trivial
  waiter := by rintro ⟨⟩
  unbroken := by rintro ⟨⟩
  unharmed := by rintro ⟨⟩
  awaited := by rintro ⟨⟩

/-! ## The law -/

/-- In every run in which no feed lands in one of the two gaps, the bytes handed
out, those taken by the call in progress and the buffer are the bytes fed, and
`readexactly(n)` returns `n` bytes. -/
theorem stream_keeps_bytes (reached : machine.Reach (fun s a => spaced s a = true) s) :
    s.delivered ++ s.pc.taken ++ s.buffer = s.fed ∧
      ∀ n data, .returned (.readexactly n) data ∈ s.answers → (data.length : Int) = n := by
  have conserved : Conserved s := by
    refine reached.invariant Conserved ?_ fun _ _ _ before allowed taken =>
      conserved_step before allowed taken
    rintro _ ⟨limit, transport, _, rfl⟩
    exact conserved_fresh limit transport
  exact ⟨conserved.law, conserved.exact⟩

/-- `readexactly(2)` finds one byte, waits for the second and takes both; a
third arrives afterwards. -/
def pacedRun : List Act :=
  List.flatten
    [[.feedData [1], .call (.readexactly 2)], .replicate 2 .reader, [.feedData [2]],
      .replicate 9 .reader, [.feedData [3]]]

theorem fresh_start : machine.start (fresh 4 true) :=
  ⟨4, true, by decide, rfl⟩

theorem pacedRun_ends :
    (machine.execIf spaced (fresh 4 true) pacedRun).any (fun s =>
      s.answers = [.returned (.readexactly 2) [1, 2]] ∧ s.fed = [1, 2, 3]) = true := by
  decide +kernel

theorem stream_keeps_bytes_around_readexactly :
    ∃ s : State, s.answers = [.returned (.readexactly 2) [1, 2]] ∧ s.fed = [1, 2, 3] ∧
      s.delivered ++ s.pc.taken ++ s.buffer = s.fed := by
  obtain ⟨s, reached, ends⟩ :=
    Machine.Reach.exists_of_execIf (fun _ _ => id) fresh_start pacedRun_ends
  obtain ⟨answered, fed⟩ := of_decide_eq_true ends
  exact ⟨s, answered, fed, (stream_keeps_bytes reached).1⟩

/-! ## The gaps -/

/-- `readexactly(2)` with two bytes buffered, up to its copy of the buffer. -/
def exactHit : List Act :=
  [.feedData [1, 2], .call (.readexactly 2), .reader, .reader, .reader]

/-- A byte fed between the copy and the clear of `readexactly` is lost. -/
theorem feedBeforeClear_ends :
    (machine.exec (fresh 4 true) (exactHit ++ [.reader, .feedData [3], .reader])).any (fun s =>
      s.fed = [1, 2, 3] ∧ s.delivered ++ s.pc.taken ++ s.buffer = [1, 2]) = true := by
  decide +kernel

/-- A byte fed between the test and the copy of `readexactly` is returned. -/
theorem feedBeforeCopy_ends :
    (machine.exec (fresh 4 true)
      (exactHit ++ [.feedData [3], .reader, .reader, .reader])).any (fun s =>
        .returned (.readexactly 2) [1, 2, 3] ∈ s.answers) = true := by
  decide +kernel

/-- A byte fed between the copy and the delete of a short `read` is lost. -/
theorem feedBeforeDelete_ends :
    (machine.exec (fresh 4 true)
      [.feedData [1], .call (.read 2), .reader, .reader, .reader, .feedData [2], .reader]).any
        (fun s => s.fed = [1, 2] ∧ s.delivered ++ s.pc.taken ++ s.buffer = [1]) = true := by
  decide +kernel

theorem feed_lost_in_gap :
    (∃ s, machine.Reachable s ∧ s.fed = [1, 2, 3] ∧
      s.delivered ++ s.pc.taken ++ s.buffer = [1, 2]) ∧
    (∃ s, machine.Reachable s ∧ s.fed = [1, 2] ∧
      s.delivered ++ s.pc.taken ++ s.buffer = [1]) ∧
    ∃ s, machine.Reachable s ∧ .returned (.readexactly 2) [1, 2, 3] ∈ s.answers := by
  refine ⟨?_, ?_, ?_⟩
  · obtain ⟨s, reached, ends⟩ := Machine.Reachable.exists_of_exec fresh_start feedBeforeClear_ends
    exact ⟨s, reached, of_decide_eq_true ends⟩
  · obtain ⟨s, reached, ends⟩ := Machine.Reachable.exists_of_exec fresh_start feedBeforeDelete_ends
    exact ⟨s, reached, of_decide_eq_true ends⟩
  · obtain ⟨s, reached, ends⟩ := Machine.Reachable.exists_of_exec fresh_start feedBeforeCopy_ends
    exact ⟨s, reached, of_decide_eq_true ends⟩

end MtAsyncio.Streams
