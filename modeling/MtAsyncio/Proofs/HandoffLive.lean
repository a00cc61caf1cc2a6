/-
Module: MtAsyncio.Proofs.HandoffLive
Purpose: A reading task never sleeps on what it was fed.  While its waiter is
  registered and pending, nothing has come since the task last evaluated its
  condition, and the transport is not paused.
Trusted boundary: none
Main exports: Unseen, Handed, handed_step, handoff_never_deadlocks
-/
import MtAsyncio.Model.Handoff

namespace MtAsyncio.Handoff

open Lib (Machine)
open Streams (Bytes WaitPc wakeupWaiter feedData feedEof setException)
open Tasks (FutState)

variable {s s' : State} {t : Streams.State}

/-! ## Feeds -/

theorem wakeupWaiter_eq (t : Streams.State) (outcome : FutState) :
    ∃ fut, wakeupWaiter t outcome = { t with waiter := false, fut := fut } := by
  unfold wakeupWaiter
  split
  · exact ⟨_, rfl⟩
  · rename_i still
    have noWaiter : t.waiter = false := by simpa using still
    refine ⟨t.fut, ?_⟩
    rw [← noWaiter]

/-- A feed that is refused, or empty, counts as a generation only; any other one
lengthens the buffer, wakes the waiter and may pause the transport. -/
theorem feedData_cases (t : Streams.State) (data : Bytes) :
    ((t.eof = true ∨ data = []) ∧ feedData t data = { t with feedGen := t.feedGen + 1 }) ∨
    (t.eof = false ∧ data ≠ [] ∧ ∃ fut paused reading,
      (paused = false → t.paused = false ∧ reading = t.reading) ∧
      feedData t data = { t with
        feedGen := t.feedGen + 1
        buffer := t.buffer ++ data
        fed := t.fed ++ data
        waiter := false
        fut := fut
        paused := paused
        reading := reading }) := by
  unfold feedData
  simp only
  split
  · rename_i refused
    exact .inl ⟨refused, rfl⟩
  · rename_i accepted
    obtain ⟨isOpen, nonempty⟩ : t.eof = false ∧ data ≠ [] := by simpa using accepted
    refine .inr ⟨isOpen, nonempty, ?_⟩
    obtain ⟨fut, woken⟩ := wakeupWaiter_eq { t with
      feedGen := t.feedGen + 1
      buffer := t.buffer ++ data
      fed := t.fed ++ data } .finished
    rw [woken]
    split
    · exact ⟨fut, true, false, fun unpaused => absurd unpaused (by decide), rfl⟩
    · exact ⟨fut, t.paused, t.reading, fun unpaused => ⟨unpaused, rfl⟩, rfl⟩

/-! ## The invariant -/

/-- `_wait_for_data` will see that something has come. -/
def Unseen (t : Streams.State) : Prop :=
  t.eof = true ∨ t.exception = true ∨ (t.feedGen ≠ t.seenGen ∧ t.buffer ≠ [])

/-- Between the evaluation of the condition and the registration of the waiter. -/
def ReaderPc.deciding : ReaderPc → Bool
  | .evaluated | .wait .testWaiter | .wait .testPaused | .wait .unpause
  | .wait .resumeReading | .wait .decide => true
  | _ => false

/-- The pause flag was seen unset, or it has been reset. -/
def ReaderPc.unpaused : ReaderPc → Bool
  | .wait .resumeReading | .wait .decide => true
  | _ => false

/-- The flag was reset and the transport is about to go on. -/
def ReaderPc.resuming : ReaderPc → Bool
  | .resume | .wait .resumeReading => true
  | _ => false

def ReaderPc.parked : ReaderPc → Bool
  | .wait .parked | .wait .dropWaiter => true
  | _ => false

structure Handed (s : State) : Prop where
  behind : s.stream.seenGen ≤ s.stream.feedGen
  noticed : s.reader.deciding = true → s.news = true → Unseen s.stream
  repaused : s.reader.unpaused = true → s.stream.paused = true → Unseen s.stream
  reading : s.stream.paused = false → s.stream.reading = true ∨ s.reader.resuming = true
  parked : s.stream.waiter = true → s.reader.parked = true ∧ s.stream.eof = false
  asleep : s.stream.waiter = true → s.stream.fut = .pending →
    s.news = false ∧ s.stream.paused = false

/-- Outside of a resume the transport reads whenever it is not paused. -/
theorem Handed.goesOn (handed : Handed s) (calm : s.reader.resuming = false)
    (paused : s.stream.paused = false) : s.stream.reading = true := by
  rcases handed.reading paused with reading | resuming
  · exact reading
  · rw [calm] at resuming
    cases resuming

/-- An act that leaves the waiter unregistered, and is noticed if it is news. -/
theorem Handed.noticed_by (handed : Handed s) {news : Bool}
    (behind : t.seenGen ≤ t.feedGen) (unseen : Unseen t) (still : t.waiter = false)
    (reading : t.paused = false → s.stream.paused = false ∧ t.reading = s.stream.reading) :
    Handed { s with stream := t, news := news } where
  behind := behind
  noticed _ _ := unseen
  repaused _ _ := unseen
  reading := by
    intro unpaused
    obtain ⟨was, same⟩ := reading unpaused
    show t.reading = true ∨ _
    rw [same]
    exact handed.reading was
  parked := by
    intro waits
    rw [show t.waiter = false from still] at waits
    cases waits
  asleep := by
    intro waits
    rw [show t.waiter = false from still] at waits
    cases waits

theorem handed_feedData (handed : Handed s) (data : Bytes) :
    Handed { s with stream := feedData s.stream data, news := s.news || data ≠ [] } := by
  have behind := handed.behind
  obtain ⟨refused, fed⟩ | ⟨isOpen, nonempty, fut, paused, reading, same, fed⟩ :=
    feedData_cases s.stream data
  · rw [fed]
    obtain ended | empty := refused
    · have unregistered : s.stream.waiter = false := by
        cases waits : s.stream.waiter with
        | false => rfl
        | true => simp [(handed.parked waits).2] at ended
      exact handed.noticed_by (Nat.le_succ_of_le behind) (.inl ended) unregistered
        fun unpaused => ⟨unpaused, rfl⟩
    · -- an empty feed only makes the generation newer
      have newer : Unseen s.stream →
          Unseen { s.stream with feedGen := s.stream.feedGen + 1 } := by
        rintro (ended | failed | ⟨-, nonempty⟩)
        · exact .inl ended
        · exact .inr (.inl failed)
        · refine .inr (.inr ⟨?_, nonempty⟩)
          show s.stream.feedGen + 1 ≠ s.stream.seenGen
          omega
      have quiet : (s.news || decide (data ≠ [])) = s.news := by simp [empty]
      rw [quiet]
      exact { handed with
        behind := Nat.le_succ_of_le behind
        noticed := fun deciding news => newer (handed.noticed deciding news)
        repaused := fun unpaused paused => newer (handed.repaused unpaused paused) }
  · rw [fed]
    refine handed.noticed_by (Nat.le_succ_of_le behind) (.inr (.inr ⟨?_, ?_⟩)) rfl same
    · show s.stream.feedGen + 1 ≠ s.stream.seenGen
      omega
    · show s.stream.buffer ++ data ≠ []
      simp [nonempty]

theorem handed_feedEof (handed : Handed s) :
    Handed { s with stream := feedEof s.stream, news := true } := by
  obtain ⟨fut, fed⟩ := wakeupWaiter_eq
    { s.stream with feedGen := s.stream.feedGen + 1, eof := true } .finished
  rw [feedEof, fed]
  exact handed.noticed_by (Nat.le_succ_of_le handed.behind) (.inl rfl) rfl
    fun unpaused => ⟨unpaused, rfl⟩

theorem handed_setException (handed : Handed s) :
    Handed { s with stream := setException s.stream, news := true } := by
  obtain ⟨fut, fed⟩ := wakeupWaiter_eq
    { s.stream with feedGen := s.stream.feedGen + 1, exception := true } .failed
  rw [setException, fed]
  exact handed.noticed_by (Nat.le_succ_of_le handed.behind) (.inr (.inl rfl)) rfl
    fun unpaused => ⟨unpaused, rfl⟩

/-! ### The reading task -/

theorem Handed.still (handed : Handed s) (elsewhere : s.reader.parked = false) :
    s.stream.waiter = false := by
  cases waits : s.stream.waiter with
  | false => rfl
  | true => simp [(handed.parked waits).1] at elsewhere

/-- The task goes on in its own code, without a word to the waiter. -/
theorem Handed.own {reader : ReaderPc} (handed : Handed s) (own : reader.deciding = false)
    (elsewhere : s.reader.parked = false) (behind : t.seenGen ≤ t.feedGen)
    (waiter : t.waiter = s.stream.waiter ∨ t.waiter = false)
    (reading : t.paused = false → t.reading = true ∨ reader.resuming = true)
    (calm : reader.unpaused = false) : Handed { s with stream := t, reader := reader } := by
  have still : t.waiter = false := by
    obtain same | none := waiter
    · exact same.trans (handed.still elsewhere)
    · exact none
  refine ⟨behind, ?_, ?_, reading, ?_, ?_⟩
  · intro deciding
    simp [own] at deciding
  · intro unpaused
    simp [calm] at unpaused
  · intro waits
    simp [still] at waits
  · intro waits
    simp [still] at waits

/-- `_wait_for_data` goes on; the waiter is not registered yet. -/
theorem Handed.goto {reader : ReaderPc} (handed : Handed s)
    (early : s.reader.deciding = true) (elsewhere : s.reader.parked = false)
    (same : t.feedGen = s.stream.feedGen ∧ t.seenGen = s.stream.seenGen ∧
      t.buffer = s.stream.buffer ∧ t.eof = s.stream.eof ∧ t.exception = s.stream.exception ∧
      t.waiter = s.stream.waiter)
    (repaused : reader.unpaused = true → t.paused = true → Unseen s.stream)
    (reading : t.paused = false → t.reading = true ∨ reader.resuming = true) :
    Handed { s with stream := t, reader := reader } := by
  obtain ⟨feedGen, seenGen, buffer, eof, exception, waiter⟩ := same
  have still : t.waiter = false := waiter.trans (handed.still elsewhere)
  have seen : Unseen s.stream → Unseen t := by
    intro unseen
    simpa only [Unseen, feedGen, seenGen, buffer, eof, exception] using unseen
  refine ⟨?_, ?_, ?_, reading, ?_, ?_⟩
  · show t.seenGen ≤ t.feedGen
    rw [feedGen, seenGen]
    exact handed.behind
  · intro _ news
    exact seen (handed.noticed early news)
  · intro unpaused paused
    exact seen (repaused unpaused paused)
  · intro waits
    simp [still] at waits
  · intro waits
    simp [still] at waits

/-- The waiter is registered only when nothing has come. -/
theorem handed_decide (handed : Handed s) (stage : s.reader = .wait .decide)
    (taken : waitStep s .decide = some s') : Handed s' := by
  have elsewhere : s.reader.parked = false := by rw [stage]; rfl
  have deciding : s.reader.deciding = true := by rw [stage]; rfl
  have unpaused : s.reader.unpaused = true := by rw [stage]; rfl
  have goesOn := handed.goesOn (by rw [stage]; rfl)
  simp only [waitStep, Streams.waitStep, Option.map_some, Option.some.injEq] at taken
  subst taken
  unfold Streams.decideWait
  simp only
  by_cases fresh : s.stream.feedGen ≠ s.stream.seenGen ∧
      (s.stream.buffer ≠ [] ∨ s.stream.eof = true ∨ s.stream.exception = true)
  · rw [if_pos fresh]
    exact handed.own rfl elsewhere (Nat.le_refl _) (.inl rfl)
      (fun paused => .inl (goesOn paused)) rfl
  · rw [if_neg fresh]
    by_cases ended : s.stream.eof = true ∨ s.stream.exception = true
    · rw [if_pos ended]
      exact handed.own rfl elsewhere (Nat.le_refl _) (.inl rfl)
        (fun paused => .inl (goesOn paused)) rfl
    · rw [if_neg ended]
      have nothing : ¬Unseen s.stream := by
        rintro (eof | exception | ⟨newer, nonempty⟩)
        · exact ended (.inl eof)
        · exact ended (.inr exception)
        · exact fresh ⟨newer, .inl nonempty⟩
      have noNews : s.news = false := by
        cases news : s.news with
        | false => rfl
        | true => exact absurd (handed.noticed deciding news) nothing
      have calm : s.stream.paused = false := by
        cases paused : s.stream.paused with
        | false => rfl
        | true => exact absurd (handed.repaused unpaused paused) nothing
      refine ⟨Nat.le_refl _, ?_, ?_, fun paused => .inl (goesOn paused), ?_,
        fun _ _ => ⟨noNews, calm⟩⟩
      · intro deciding
        cases deciding
      · intro unpaused
        cases unpaused
      · intro _
        exact ⟨rfl, by simpa using fun eof => ended (.inl eof)⟩

theorem handed_wait {pc : WaitPc} (handed : Handed s) (stage : s.reader = .wait pc)
    (taken : waitStep s pc = some s') : Handed s' := by
  cases pc with
  | decide => exact handed_decide handed stage taken
  | testWaiter =>
      have elsewhere : s.reader.parked = false := by rw [stage]; rfl
      have alone : ¬s.stream.waiter = true := by simp [handed.still elsewhere]
      simp only [waitStep, Streams.waitStep, if_neg alone, Option.map_some,
        Option.some.injEq] at taken
      subst taken
      refine handed.goto (by rw [stage]; rfl) elsewhere ⟨rfl, rfl, rfl, rfl, rfl, rfl⟩ ?_ ?_
      · intro unpaused
        cases unpaused
      · intro paused
        exact .inl (handed.goesOn (by rw [stage]; rfl) paused)
  | testPaused =>
      simp only [waitStep, Streams.waitStep, Option.map_some, Option.some.injEq] at taken
      subst taken
      refine handed.goto (by rw [stage]; rfl) (by rw [stage]; rfl) ⟨rfl, rfl, rfl, rfl, rfl, rfl⟩
        ?_ ?_
      · intro unpaused paused
        have isPaused : s.stream.paused = true := paused
        simp [isPaused, ReaderPc.unpaused] at unpaused
      · intro paused
        exact .inl (handed.goesOn (by rw [stage]; rfl) paused)
  | unpause =>
      simp only [waitStep, Streams.waitStep, Option.map_some, Option.some.injEq] at taken
      subst taken
      refine handed.goto (by rw [stage]; rfl) (by rw [stage]; rfl) ⟨rfl, rfl, rfl, rfl, rfl, rfl⟩
        ?_ (fun _ => .inr rfl)
      intro _ paused
      cases paused
  | resumeReading =>
      simp only [waitStep, Streams.waitStep, Option.map_some, Option.some.injEq] at taken
      subst taken
      refine handed.goto (by rw [stage]; rfl) (by rw [stage]; rfl) ⟨rfl, rfl, rfl, rfl, rfl, rfl⟩
        ?_ (fun _ => .inl rfl)
      intro _ paused
      exact handed.repaused (by rw [stage]; rfl) paused
  | parked =>
      simp only [waitStep, Streams.waitStep] at taken
      split at taken
      · cases taken
      · simp only [Option.map_some, Option.some.injEq] at taken
        subst taken
        exact { handed with
          noticed := fun deciding => by cases deciding
          repaused := fun unpaused => by cases unpaused
          reading := fun paused => .inl (handed.goesOn (by rw [stage]; rfl) paused)
          parked := fun waits => ⟨rfl, (handed.parked waits).2⟩ }
  | dropWaiter =>
      simp only [waitStep, Streams.waitStep, Option.map_some, Option.some.injEq] at taken
      subst taken
      exact { handed with
        noticed := fun deciding => by cases deciding
        repaused := fun unpaused => by cases unpaused
        reading := fun paused => .inl (handed.goesOn (by rw [stage]; rfl) paused)
        parked := fun waits => by cases waits
        asleep := fun waits => by cases waits }
  | catchUp =>
      simp only [waitStep, Streams.waitStep, Option.map_some, Option.some.injEq] at taken
      subst taken
      have goesOn := handed.goesOn (by rw [stage]; rfl)
      have elsewhere : s.reader.parked = false := by rw [stage]; rfl
      by_cases finished : s.stream.fut = .finished
      · rw [if_pos finished]
        exact handed.own rfl elsewhere (Nat.le_refl _) (.inl rfl)
          (fun paused => .inl (goesOn paused)) rfl
      · rw [if_neg finished]
        exact handed.own rfl elsewhere (Nat.le_refl _) (.inl rfl)
          (fun paused => .inl (goesOn paused)) rfl

theorem ReaderPc.parked_of_own {reader : ReaderPc} (own : reader.own = true) :
    reader.parked = false ∧ reader.resuming = false := by
  cases reader with
  | running => exact ⟨rfl, rfl⟩
  | evaluated => exact ⟨rfl, rfl⟩
  | wait pc => cases own
  | resume => cases own

theorem handed_step {a : Act} (handed : Handed s) (taken : step s a = some s') : Handed s' := by
  cases a with
  | feedData data =>
      obtain rfl := Option.some.inj taken
      exact handed_feedData handed data
  | feedEof =>
      obtain rfl := Option.some.inj taken
      exact handed_feedEof handed
  | setException =>
      obtain rfl := Option.some.inj taken
      exact handed_setException handed
  | cancel =>
      simp only [step] at taken
      split at taken
      · obtain rfl := Option.some.inj taken
        exact { handed with asleep := fun _ pending => by cases pending }
      · cases taken
  | interrupt =>
      simp only [step] at taken
      split at taken
      · rename_i here
        obtain rfl := Option.some.inj taken
        exact { handed with
          noticed := fun deciding => by cases deciding
          repaused := fun unpaused => by cases unpaused
          reading := fun paused => .inl (handed.goesOn (by rw [here.1]; rfl) paused)
          parked := fun waits => ⟨rfl, (handed.parked waits).2⟩ }
      · cases taken
  | evaluate =>
      simp only [step] at taken
      split at taken
      · rename_i own
        obtain rfl := Option.some.inj taken
        obtain ⟨elsewhere, calm⟩ := ReaderPc.parked_of_own own
        have still := handed.still elsewhere
        exact { handed with
          noticed := fun _ news => by cases news
          repaused := fun unpaused => by cases unpaused
          reading := fun paused => .inl (handed.goesOn calm paused)
          parked := fun waits => by simp [still] at waits
          asleep := fun waits => by simp [still] at waits }
      · cases taken
  | consume n =>
      simp only [step] at taken
      split at taken
      · rename_i own
        obtain rfl := Option.some.inj taken
        obtain ⟨elsewhere, calm⟩ := ReaderPc.parked_of_own own
        refine handed.own rfl elsewhere handed.behind (.inl rfl) ?_ rfl
        intro paused
        exact .inl (handed.goesOn calm paused)
      · cases taken
  | maybeResume =>
      simp only [step, maybeResume] at taken
      split at taken
      · rename_i own
        obtain ⟨elsewhere, calm⟩ := ReaderPc.parked_of_own own
        split at taken
        · obtain rfl := Option.some.inj taken
          exact handed.own rfl elsewhere handed.behind (.inl rfl) (fun _ => .inr rfl) rfl
        · obtain rfl := Option.some.inj taken
          refine handed.own rfl elsewhere handed.behind (.inl rfl) ?_ rfl
          intro paused
          exact .inl (handed.goesOn calm paused)
      · cases taken
  | resumeReading =>
      simp only [step] at taken
      split at taken
      · rename_i here
        obtain rfl := Option.some.inj taken
        exact handed.own rfl (by rw [here]; rfl) handed.behind (.inl rfl) (fun _ => .inl rfl) rfl
      · cases taken
  | wait =>
      simp only [step] at taken
      split at taken
      · rename_i here
        obtain rfl := Option.some.inj taken
        refine handed.goto (by rw [here]; rfl) (by rw [here]; rfl) ⟨rfl, rfl, rfl, rfl, rfl, rfl⟩
          ?_ ?_
        · intro unpaused
          cases unpaused
        · intro paused
          exact .inl (handed.goesOn (by rw [here]; rfl) paused)
      · cases taken
  | reader =>
      simp only [step] at taken
      split at taken
      · rename_i pc here
        exact handed_wait handed here taken
      · cases taken

/-! ## Runs -/

theorem handed_of_reachable (reached : machine.Reachable s) : Handed s := by
  refine reached.invariant Handed ?_ ?_
  · rintro s ⟨limit, transport, -, rfl⟩
    refine ⟨Nat.le_refl _, ?_, ?_, fun _ => .inl rfl, ?_, ?_⟩ <;> · intro false_; cases false_
  · intro s a s' handed _ taken
    exact handed_step handed taken

/-- While the waiter is registered and pending, nothing has come since the reading
task last evaluated its condition, and the transport is not paused. -/
theorem handoff_never_deadlocks (reached : machine.Reachable s)
    (registered : s.stream.waiter = true) (pending : s.stream.fut = .pending) :
    s.news = false ∧ s.stream.paused = false ∧ s.stream.reading = true := by
  have handed := handed_of_reachable reached
  obtain ⟨noNews, calm⟩ := handed.asleep registered pending
  refine ⟨noNews, calm, (handed.reading calm).resolve_right ?_⟩
  have parked := (handed.parked registered).1
  unfold ReaderPc.parked at parked
  split at parked
  · rename_i stage
    simp [stage, ReaderPc.resuming]
  · rename_i stage
    simp [stage, ReaderPc.resuming]
  · cases parked

/-- Data comes between the evaluation and the wait, which returns at once; the
next wait parks. -/
def parkRun : List Act :=
  [.evaluate, .feedData [1], .wait, .reader, .reader, .reader, .evaluate, .wait, .reader, .reader,
    .reader]

theorem parkRun_ends :
    (machine.exec { stream := Streams.fresh 1 true, reader := .running, news := false }
      (parkRun.take 6 ++ [.consume 1] ++ parkRun.drop 6)).any
      (fun s => s.stream.waiter ∧ s.stream.fut = .pending) = true := by
  decide

theorem handoff_never_deadlocks_parked :
    ∃ s, machine.Reachable s ∧ s.stream.waiter = true ∧ s.stream.fut = .pending ∧
      s.news = false := by
  obtain ⟨s, reached, holds⟩ :=
    Machine.Reachable.exists_of_exec (M := machine) ⟨1, true, by decide, rfl⟩ parkRun_ends
  simp only [decide_eq_true_eq] at holds
  obtain ⟨registered, pending⟩ := holds
  exact ⟨s, reached, registered, pending, (handoff_never_deadlocks reached registered pending).1⟩

end MtAsyncio.Handoff
