/-
Module: MtAsyncio.Proofs.StreamEof
Purpose: What `read(n)` may conclude from an empty answer.  The bytes handed out
  are always among those that were fed; and as long as no `read(n)` returns from
  `_wait_for_data` for an exception with nothing buffered, an empty answer
  means that the end of the stream was fed.
Trusted boundary: none
Main exports: Supplied, supplied_step, noticed, Honest, honest_step,
  read_reports_end, read_invents_end
-/
import MtAsyncio.Proofs.StreamBytes

namespace MtAsyncio.Streams

open Lib (Machine)
open Tasks (FutState)

variable {s s' : State}

/-! ## Feeds -/

theorem wakeupWaiter_keeps (s : State) (outcome : FutState) :
    (wakeupWaiter s outcome).buffer = s.buffer ∧ (wakeupWaiter s outcome).eof = s.eof ∧
      (wakeupWaiter s outcome).pc = s.pc ∧ (wakeupWaiter s outcome).answers = s.answers ∧
      (wakeupWaiter s outcome).fed = s.fed ∧ (wakeupWaiter s outcome).limit = s.limit := by
  unfold wakeupWaiter
  split <;> exact ⟨rfl, rfl, rfl, rfl, rfl, rfl⟩

theorem feedData_keeps (s : State) (data : Bytes) :
    (feedData s data).eof = s.eof ∧ (feedData s data).pc = s.pc ∧
      (feedData s data).answers = s.answers ∧ (feedData s data).limit = s.limit ∧
      ∃ more, (feedData s data).buffer = s.buffer ++ more ∧
        (feedData s data).fed = s.fed ++ more := by
  unfold feedData
  simp only
  split
  · exact ⟨rfl, rfl, rfl, rfl, [], by simp, by simp⟩
  · obtain ⟨buffer, eof, pc, answers, fed, limit⟩ := wakeupWaiter_keeps { s with
      feedGen := s.feedGen + 1
      buffer := s.buffer ++ data
      fed := s.fed ++ data } .finished
    split
    · exact ⟨eof, pc, answers, limit, data, buffer, fed⟩
    · exact ⟨eof, pc, answers, limit, data, buffer, fed⟩

/-! ## Bytes that were fed -/

/-- A local copy of the front of the buffer that the call is about to delete. -/
def Copied (limit : Nat) (buffer : Bytes) : Pc → Prop
  | .readDelete r data => data.length ≤ r.size limit ∧ data <+: buffer
  | .deletePrefix n data => data.length ≤ n ∧ data <+: buffer
  | .incompleteClear _ data | .clearAll _ data => data <+: buffer
  | _ => True

/-- What was handed out, what the call has taken and the buffer are bytes that
were fed, in that order, none of them twice. -/
structure Supplied (s : State) : Prop where
  law : (s.delivered ++ s.pc.taken ++ s.buffer).Sublist s.fed
  copied : Copied s.limit s.buffer s.pc

/-- What the reading task does to the bytes. -/
theorem Supplied.move (supplied : Supplied s)
    (law : (s'.delivered ++ s'.pc.taken ++ s'.buffer).Sublist
      (s.delivered ++ s.pc.taken ++ s.buffer))
    (fed : s'.fed = s.fed) (copied : Copied s'.limit s'.buffer s'.pc) : Supplied s' :=
  ⟨fed ▸ law.trans supplied.law, copied⟩

/-- The reading task takes nothing, and may forget what it had taken. -/
theorem Supplied.goto (supplied : Supplied s) (same : s'.answers = s.answers)
    (buffer : s'.buffer = s.buffer) (fed : s'.fed = s.fed)
    (taken : s'.pc.taken = s.pc.taken ∨ s'.pc.taken = [])
    (copied : Copied s'.limit s'.buffer s'.pc) : Supplied s' := by
  refine supplied.move ?_ fed copied
  have delivered : s'.delivered = s.delivered := congrArg (List.flatMap Answer.data) same
  rw [delivered, buffer]
  obtain same | nothing := taken
  · exact same ▸ List.Sublist.refl _
  · rw [nothing, List.append_nil]
    exact (List.sublist_append_left _ _).append (List.Sublist.refl _)

theorem Copied.append {limit : Nat} {buffer : Bytes} {pc : Pc} (copied : Copied limit buffer pc)
    (more : Bytes) : Copied limit (buffer ++ more) pc := by
  cases pc with
  | readDelete r data => exact ⟨copied.1, copied.2.trans (List.prefix_append _ _)⟩
  | deletePrefix n data => exact ⟨copied.1, copied.2.trans (List.prefix_append _ _)⟩
  | incompleteClear n data => exact List.IsPrefix.trans copied (List.prefix_append _ _)
  | clearAll n data => exact List.IsPrefix.trans copied (List.prefix_append _ _)
  | _ => trivial

theorem supplied_feedData (supplied : Supplied s) (data : Bytes) : Supplied (feedData s data) := by
  obtain ⟨-, pc, answers, limit, more, buffer, fed⟩ := feedData_keeps s data
  constructor
  · have delivered : (feedData s data).delivered = s.delivered :=
      congrArg (List.flatMap Answer.data) answers
    rw [delivered, pc, buffer, fed, ← List.append_assoc]
    exact supplied.law.append (List.Sublist.refl more)
  · rw [pc, buffer, limit]
    exact supplied.copied.append more

/-- The bytes taken are deleted from the buffer behind their copy. -/
theorem delete_sublist {data buffer : Bytes} {n : Nat} (short : data.length ≤ n)
    (copied : data <+: buffer) : (data ++ buffer.drop n).Sublist buffer := by
  obtain ⟨rest, rfl⟩ := copied
  refine (List.Sublist.refl data).append ?_
  rw [List.drop_append, List.drop_eq_nil_of_le short, List.nil_append]
  exact List.drop_sublist _ _

/-- The bytes taken, or some of them, are handed out. -/
theorem supplied_answer (supplied : Supplied s) {a : Answer}
    (some_ : a.data.Sublist s.pc.taken) : Supplied (answer s a) := by
  refine supplied.move ?_ rfl trivial
  show List.Sublist ((s.answers ++ [a]).flatMap Answer.data ++ [] ++ s.buffer) _
  rw [List.flatMap_append, List.flatMap_singleton, List.append_nil]
  exact ((List.Sublist.refl s.delivered).append some_).append (List.Sublist.refl _)

theorem supplied_raise (supplied : Supplied s) : Supplied (raise s) :=
  supplied.goto rfl rfl rfl (.inr rfl) trivial

theorem supplied_finish (supplied : Supplied s) {c : Caller} {data : Bytes}
    (taken : s.pc.taken = c.blocks ++ data) : Supplied (finish s data c) := by
  cases c with
  | readexactly n => exact supplied_answer supplied (by rw [taken]; exact List.Sublist.refl _)
  | read r =>
      cases r with
      | upTo n => exact supplied_answer supplied (by rw [taken]; exact List.Sublist.refl _)
      | all n blocks =>
          simp only [finish]
          split
          · refine supplied_answer supplied ?_
            rw [taken]
            exact List.sublist_append_left _ _
          · refine supplied.goto rfl rfl rfl (.inl ?_) trivial
            rw [taken]
            rfl

theorem supplied_enter (supplied : Supplied s) {call : Call} (pc : s.pc = .enter call) :
    Supplied (enter s call) := by
  have nothing : s.pc.taken = [] := by rw [pc]; rfl
  have empty : ∀ a : Answer, a.data = [] → Supplied (answer s a) := by
    intro a isEmpty
    exact supplied_answer supplied (by rw [isEmpty]; exact List.nil_sublist _)
  cases call with
  | read n =>
      simp only [enter]
      split
      · exact supplied_raise supplied
      split
      · exact empty _ rfl
      split
      · exact supplied.goto rfl rfl rfl (.inr rfl) trivial
      · exact supplied.goto rfl rfl rfl (.inr rfl) trivial
  | readexactly n =>
      simp only [enter]
      split
      · exact supplied_raise supplied
      split
      · exact supplied_raise supplied
      split
      · exact empty _ rfl
      · exact supplied.goto rfl rfl rfl (.inr rfl) trivial

theorem Caller.resumed_taken (c : Caller) : c.resumed.taken = c.blocks := by
  cases c <;> rfl

theorem Caller.resumed_copied (c : Caller) {limit : Nat} {buffer : Bytes} :
    Copied limit buffer c.resumed := by
  cases c <;> trivial

theorem supplied_waitStep (supplied : Supplied s) {c : Caller} {pc : WaitPc}
    (at_ : s.pc = .wait c pc) (taken : waitStep s c pc = some s') : Supplied s' := by
  have isTaken : s.pc.taken = c.blocks := by rw [at_]; rfl
  have resumes : c.resumed.taken = s.pc.taken := by rw [isTaken, c.resumed_taken]
  have waits : c.blocks = s.pc.taken := isTaken.symm
  cases pc with
  | testWaiter =>
      simp only [waitStep, Option.some.injEq] at taken
      subst taken
      split
      · exact supplied_raise supplied
      · exact supplied.goto rfl rfl rfl (.inl waits) trivial
  | testPaused =>
      simp only [waitStep, Option.some.injEq] at taken
      subst taken
      exact supplied.goto rfl rfl rfl (.inl waits) trivial
  | unpause =>
      simp only [waitStep, Option.some.injEq] at taken
      subst taken
      exact supplied.goto rfl rfl rfl (.inl waits) trivial
  | resumeReading =>
      simp only [waitStep, Option.some.injEq] at taken
      subst taken
      exact supplied.goto rfl rfl rfl (.inl waits) trivial
  | decide =>
      simp only [waitStep, Option.some.injEq, decideWait] at taken
      subst taken
      split
      · exact supplied.goto rfl rfl rfl (.inl resumes) c.resumed_copied
      split
      · exact supplied.goto rfl rfl rfl (.inl resumes) c.resumed_copied
      · exact supplied.goto rfl rfl rfl (.inl waits) trivial
  | parked =>
      simp only [waitStep] at taken
      split at taken
      · cases taken
      · obtain rfl := Option.some.inj taken
        exact supplied.goto rfl rfl rfl (.inl waits) trivial
  | dropWaiter =>
      simp only [waitStep, Option.some.injEq] at taken
      subst taken
      exact supplied.goto rfl rfl rfl (.inl waits) trivial
  | catchUp =>
      simp only [waitStep, Option.some.injEq] at taken
      subst taken
      split
      · exact supplied.goto rfl rfl rfl (.inl resumes) c.resumed_copied
      · exact supplied.goto rfl rfl rfl (.inr rfl) trivial

theorem supplied_readerStep (supplied : Supplied s) (taken : readerStep s = some s') :
    Supplied s' := by
  have copied := supplied.copied
  unfold readerStep at taken
  cases pc : s.pc with
  | idle => simp [pc] at taken
  | enter call =>
      simp only [pc, Option.some.injEq] at taken
      exact taken ▸ supplied_enter supplied pc
  | readEnter n blocks =>
      simp only [pc, Option.some.injEq] at taken
      subst taken
      split
      · exact supplied_raise supplied
      · exact supplied.goto rfl rfl rfl (.inl (by rw [pc]; rfl)) trivial
  | readBuffer r =>
      simp only [pc, Option.some.injEq] at taken
      subst taken
      by_cases empty : s.buffer = []
      · rw [if_pos empty]
        exact supplied.goto rfl rfl rfl (.inl (by rw [pc]; rfl)) trivial
      · rw [if_neg empty]
        exact supplied.goto rfl rfl rfl (.inl (by rw [pc]; rfl)) trivial
  | readEof r =>
      simp only [pc, Option.some.injEq] at taken
      subst taken
      by_cases ended : s.eof = true
      · rw [if_pos ended]
        exact supplied.goto rfl rfl rfl (.inl (by rw [pc]; rfl)) trivial
      · rw [if_neg ended]
        exact supplied.goto rfl rfl rfl (.inl (by rw [pc]; rfl)) trivial
  | readCopy r =>
      simp only [pc, Option.some.injEq] at taken
      subst taken
      refine supplied.goto rfl rfl rfl (.inl (by rw [pc]; rfl)) ⟨?_, List.take_prefix _ _⟩
      exact List.length_take_le _ _
  | readDelete r data =>
      simp only [pc, Option.some.injEq] at taken
      rw [pc] at copied
      subst taken
      refine supplied.move ?_ rfl trivial
      show List.Sublist (s.delivered ++ (r.blocks ++ data) ++ s.buffer.drop (r.size s.limit)) _
      rw [pc, List.append_assoc, List.append_assoc, List.append_assoc]
      exact (List.Sublist.refl _).append
        ((List.Sublist.refl r.blocks).append (delete_sublist copied.1 copied.2))
  | exactTest n =>
      simp only [pc, Option.some.injEq] at taken
      subst taken
      refine supplied.goto rfl rfl rfl (.inr ?_) ?_
      · show Pc.taken (if s.buffer.length < n then .exactEof n else .exactEqual n) = []
        split <;> rfl
      · show Copied s.limit s.buffer (if s.buffer.length < n then .exactEof n else .exactEqual n)
        split <;> trivial
  | exactEof n =>
      simp only [pc, Option.some.injEq] at taken
      subst taken
      refine supplied.goto rfl rfl rfl (.inr ?_) ?_
      · show Pc.taken (if s.eof then .incompleteCopy n else .wait (.readexactly n) .testWaiter) = []
        split <;> rfl
      · show Copied s.limit s.buffer
          (if s.eof then .incompleteCopy n else .wait (.readexactly n) .testWaiter)
        split <;> trivial
  | incompleteCopy n =>
      simp only [pc, Option.some.injEq] at taken
      subst taken
      exact supplied.goto rfl rfl rfl (.inr rfl) List.prefix_rfl
  | incompleteClear n data =>
      simp only [pc, Option.some.injEq] at taken
      rw [pc] at copied
      subst taken
      refine supplied.move ?_ rfl trivial
      show List.Sublist
        ((s.answers ++ [Answer.incomplete n data]).flatMap Answer.data ++ [] ++ []) _
      rw [pc, List.flatMap_append, List.flatMap_singleton, List.append_nil, List.append_nil,
        List.append_assoc]
      exact (List.Sublist.refl _).append copied.sublist
  | exactEqual n =>
      simp only [pc, Option.some.injEq] at taken
      subst taken
      refine supplied.goto rfl rfl rfl (.inr ?_) ?_
      · show Pc.taken (if s.buffer.length = n then .copyAll n else .copyPrefix n) = []
        split <;> rfl
      · show Copied s.limit s.buffer (if s.buffer.length = n then .copyAll n else .copyPrefix n)
        split <;> trivial
  | copyAll n =>
      simp only [pc, Option.some.injEq] at taken
      subst taken
      exact supplied.goto rfl rfl rfl (.inr rfl) List.prefix_rfl
  | clearAll n data =>
      simp only [pc, Option.some.injEq] at taken
      rw [pc] at copied
      subst taken
      refine supplied.move ?_ rfl trivial
      show List.Sublist (s.delivered ++ ([] ++ data) ++ []) _
      rw [pc, List.append_nil, List.nil_append, List.append_assoc]
      exact (List.Sublist.refl _).append copied.sublist
  | copyPrefix n =>
      simp only [pc, Option.some.injEq] at taken
      subst taken
      exact supplied.goto rfl rfl rfl (.inr rfl) ⟨List.length_take_le _ _, List.take_prefix _ _⟩
  | deletePrefix n data =>
      simp only [pc, Option.some.injEq] at taken
      rw [pc] at copied
      subst taken
      refine supplied.move ?_ rfl trivial
      show List.Sublist (s.delivered ++ ([] ++ data) ++ s.buffer.drop n) _
      rw [pc, List.nil_append, List.append_assoc, List.append_assoc]
      exact (List.Sublist.refl _).append (delete_sublist copied.1 copied.2)
  | wait c at_ =>
      simp only [pc] at taken
      exact supplied_waitStep supplied pc taken
  | maybeResume c data =>
      simp only [pc, Option.some.injEq] at taken
      subst taken
      split
      · exact supplied.goto rfl rfl rfl (.inl (by rw [pc]; rfl)) trivial
      · exact supplied_finish supplied (by rw [pc]; rfl)
  | resume c data =>
      simp only [pc, Option.some.injEq] at taken
      subst taken
      have resumed : Supplied { s with reading := true } := ⟨supplied.law, supplied.copied⟩
      rw [← pc]
      exact supplied_finish resumed (by rw [pc]; rfl)

theorem supplied_step {a : Act} (supplied : Supplied s) (taken : step s a = some s') :
    Supplied s' := by
  have woken : ∀ {t : State} (outcome : FutState),
      Supplied t → Supplied (wakeupWaiter t outcome) := by
    intro t outcome before
    obtain ⟨buffer, -, pc, answers, fed, limit⟩ := wakeupWaiter_keeps t outcome
    exact before.goto answers buffer fed (.inl (by rw [pc]))
      (by rw [pc, buffer, limit]; exact before.copied)
  cases a with
  | feedData data =>
      obtain rfl := Option.some.inj taken
      exact supplied_feedData supplied data
  | feedEof =>
      obtain rfl := Option.some.inj taken
      exact woken .finished ⟨supplied.law, supplied.copied⟩
  | setException =>
      obtain rfl := Option.some.inj taken
      exact woken .failed ⟨supplied.law, supplied.copied⟩
  | cancel =>
      simp only [step] at taken
      split at taken
      · split at taken
        · obtain rfl := Option.some.inj taken
          exact ⟨supplied.law, supplied.copied⟩
        · cases taken
      · cases taken
  | call c =>
      simp only [step] at taken
      split at taken
      · obtain rfl := Option.some.inj taken
        exact supplied.goto rfl rfl rfl (.inr rfl) trivial
      · cases taken
  | reader => exact supplied_readerStep supplied taken

theorem supplied_of_reachable (reached : machine.Reachable s) : Supplied s := by
  refine reached.invariant Supplied ?_ ?_
  · rintro s ⟨limit, transport, -, rfl⟩
    exact ⟨List.Sublist.refl _, trivial⟩
  · intro s a s' supplied _ taken
    exact supplied_step supplied taken

/-! ## The end of the stream -/

/-- A `read(n)` with a positive `n`, not one of those that read everything. -/
def Read.single : Read → Bool
  | .upTo _ => true
  | .all _ _ => false

/-- The sizes that `read` was called with. -/
def Read.Sized : Read → Prop
  | .upTo n => 0 < n
  | .all n _ => n < 0

/-- Something is buffered, or the stream has ended. -/
def State.Filled (s : State) : Prop :=
  s.buffer ≠ [] ∨ s.eof = true

instance (s : State) : Decidable s.Filled :=
  inferInstanceAs (Decidable (_ ∨ _))

/-- No `read(n)` decides to return from `_wait_for_data` for an exception while
nothing is buffered and the stream has not ended. -/
def noticed (s : State) : Act → Bool
  | .reader => match s.pc with
      | .wait (.read r) .decide => !(r.single && s.exception) || decide s.Filled
      | _ => true
  | _ => true

/-- What the steps of a `read` so far say about the buffer. -/
def State.Told (s : State) : Pc → Prop
  | .readEnter n _ => n < 0
  | .readBuffer r | .readEof r => r.Sized
  | .readCopy r => r.Sized ∧ (r.single = true → s.Filled)
  | .readDelete r data | .maybeResume (.read r) data | .resume (.read r) data =>
      r.Sized ∧ (r.single = true → data ≠ [] ∨ s.eof = true)
  | .wait (.read r) pc =>
      r.Sized ∧ (r.single = true → (pc = .parked ∨ pc = .dropWaiter ∨ pc = .catchUp) →
        s.fut = .finished → s.Filled)
  | _ => True

/-- An empty answer to `read(n)` was given at the end of the stream only. -/
structure Honest (s : State) : Prop where
  told : s.Told s.pc
  answered : ∀ n : Int, 0 < n → .returned (.read n) [] ∈ s.answers → s.eof = true

/-- What was told about the buffer stays true while others feed it. -/
theorem State.Told.mono {pc : Pc} (told : s.Told pc) (filled : s.Filled → s'.Filled)
    (ended : s.eof = true → s'.eof = true)
    (woken : s'.fut = .finished → s.fut = .finished ∨ s'.Filled) : s'.Told pc := by
  unfold Told at told ⊢
  split at told
  · exact told
  · exact told
  · exact told
  · exact ⟨told.1, fun single => filled (told.2 single)⟩
  · exact ⟨told.1, fun single => (told.2 single).imp id ended⟩
  · exact ⟨told.1, fun single => (told.2 single).imp id ended⟩
  · exact ⟨told.1, fun single => (told.2 single).imp id ended⟩
  · refine ⟨told.1, fun single awaits finished => ?_⟩
    obtain before | now := woken finished
    · exact filled (told.2 single awaits before)
    · exact now
  · trivial

/-- A feed leaves what was told true. -/
theorem Honest.fed (honest : Honest s) (pc : s'.pc = s.pc) (answers : s'.answers = s.answers)
    (filled : s.Filled → s'.Filled) (ended : s.eof = true → s'.eof = true)
    (woken : s'.fut = .finished → s.fut = .finished ∨ s'.Filled) : Honest s' := by
  constructor
  · rw [pc]
    exact honest.told.mono filled ended woken
  · intro n positive answered
    rw [answers] at answered
    exact ended (honest.answered n positive answered)

theorem wakeupWaiter_finished (s : State) (outcome : FutState)
    (finished : (wakeupWaiter s outcome).fut = .finished) :
    s.fut = .finished ∨ outcome = .finished := by
  unfold wakeupWaiter at finished
  split at finished
  · simp only at finished
    split at finished
    · exact .inl finished
    · exact .inr finished
  · exact .inl finished

theorem honest_feedData (honest : Honest s) (data : Bytes) : Honest (feedData s data) := by
  obtain ⟨eof, pc, answers, -, more, buffer, -⟩ := feedData_keeps s data
  refine honest.fed pc answers ?_ (fun ended => eof.trans ended) ?_
  · rintro (nonempty | ended)
    · exact .inl (by simp [buffer, nonempty])
    · exact .inr (eof.trans ended)
  · intro finished
    unfold feedData at finished
    simp only at finished
    split at finished
    · exact .inl finished
    · rename_i accepted
      refine .inr (.inl ?_)
      obtain ⟨-, nonempty⟩ : s.eof = false ∧ data ≠ [] := by simpa using accepted
      have grown : (feedData s data).buffer = s.buffer ++ data := by
        unfold feedData
        simp only
        rw [if_neg accepted]
        obtain ⟨same, -⟩ := wakeupWaiter_keeps { s with
          feedGen := s.feedGen + 1
          buffer := s.buffer ++ data
          fed := s.fed ++ data } .finished
        split <;> exact same
      simp [grown, nonempty]

theorem honest_feedEof (honest : Honest s) : Honest (feedEof s) := by
  obtain ⟨buffer, eof, pc, answers, -, -⟩ := wakeupWaiter_keeps
    { s with feedGen := s.feedGen + 1, eof := true } .finished
  exact honest.fed pc answers (fun _ => .inr eof) (fun _ => eof) (fun _ => .inr (.inr eof))

theorem honest_setException (honest : Honest s) : Honest (setException s) := by
  obtain ⟨buffer, eof, pc, answers, -, -⟩ := wakeupWaiter_keeps
    { s with feedGen := s.feedGen + 1, exception := true } .failed
  refine honest.fed pc answers ?_ (fun ended => eof.trans ended) ?_
  · rintro (nonempty | ended)
    · exact .inl fun empty => nonempty (buffer.symm.trans empty)
    · exact .inr (eof.trans ended)
  · intro finished
    exact .inl ((wakeupWaiter_finished _ _ finished).resolve_right (by decide))

/-! ### The reading task -/

/-- The reading task goes on without an answer. -/
theorem Honest.goto (honest : Honest s) (answers : s'.answers = s.answers) (eof : s'.eof = s.eof)
    (told : s'.Told s'.pc) : Honest s' := by
  refine ⟨told, ?_⟩
  intro n positive answered
  rw [answers] at answered
  exact eof.trans (honest.answered n positive answered)

theorem honest_raise (honest : Honest s) : Honest (raise s) :=
  honest.goto rfl rfl trivial

theorem honest_answer (honest : Honest s) {a : Answer}
    (true_ : ∀ n : Int, 0 < n → a = .returned (.read n) [] → s.eof = true) :
    Honest (answer s a) := by
  refine ⟨trivial, ?_⟩
  intro n positive answered
  obtain before | now := List.mem_append.mp answered
  · exact honest.answered n positive before
  · exact true_ n positive (List.mem_singleton.mp now).symm

theorem honest_finish (honest : Honest s) {c : Caller} {data : Bytes}
    (told : s.Told (.maybeResume c data)) : Honest (finish s data c) := by
  cases c with
  | readexactly n =>
      refine honest_answer honest ?_
      intro m _ same
      cases same
  | read r =>
      cases r with
      | upTo n =>
          refine honest_answer honest ?_
          intro m _ same
          have empty : data = [] := by
            cases same
            rfl
          exact (told.2 rfl).resolve_left (not_not_intro empty)
      | all n blocks =>
          simp only [finish]
          have negative : n < 0 := told.1
          split
          · refine honest_answer honest ?_
            intro m positive same
            have equal : n = m := by
              cases same
              rfl
            omega
          · exact honest.goto rfl rfl negative

theorem honest_enter (honest : Honest s) {call : Call} : Honest (enter s call) := by
  cases call with
  | read n =>
      simp only [enter]
      split
      · exact honest_raise honest
      split
      · rename_i zero
        refine honest_answer honest ?_
        intro m positive same
        have equal : n = m := by
          cases same
          rfl
        omega
      split
      · rename_i negative
        exact honest.goto rfl rfl negative
      · refine honest.goto rfl rfl ?_
        show 0 < n.toNat
        omega
  | readexactly n =>
      simp only [enter]
      split
      · exact honest_raise honest
      split
      · exact honest_raise honest
      split
      · refine honest_answer honest ?_
        intro m _ same
        cases same
      · exact honest.goto rfl rfl trivial

/-- What is told in the parts of `_wait_for_data` before the waiter is made. -/
theorem told_wait {c : Caller} {pc : WaitPc} {pc' : WaitPc} (told : s.Told (.wait c pc))
    (early : pc' ≠ .parked ∧ pc' ≠ .dropWaiter ∧ pc' ≠ .catchUp) : s'.Told (.wait c pc') := by
  cases c with
  | readexactly n => trivial
  | read r =>
      refine ⟨told.1, fun _ awaits => ?_⟩
      rcases awaits with parked | drops | catches
      · exact absurd parked early.1
      · exact absurd drops early.2.1
      · exact absurd catches early.2.2

/-- `_wait_for_data` may return to a `read(n)` that finds something. -/
theorem told_resumed {c : Caller} {pc : WaitPc} (told : s.Told (.wait c pc))
    (filled : ∀ r, c = .read r → r.single = true → s'.Filled) : s'.Told c.resumed := by
  cases c with
  | readexactly n => trivial
  | read r => exact ⟨told.1, filled r rfl⟩

theorem honest_decideWait (honest : Honest s) {c : Caller} (pc : s.pc = .wait c .decide)
    (allowed : noticed s .reader = true) : Honest (decideWait s c) := by
  have told : s.Told (.wait c .decide) := pc ▸ honest.told
  -- an exception lets a `read(n)` go on only when there is something else to see
  have seen : s.buffer ≠ [] ∨ s.eof = true ∨ s.exception = true →
      ∀ r, c = .read r → r.single = true → s.Filled := by
    rintro (nonempty | ended | failed) r isRead single
    · exact .inl nonempty
    · exact .inr ended
    · subst isRead
      simpa [noticed, pc, single, failed] using allowed
  unfold decideWait
  simp only
  split
  · rename_i fresh
    exact honest.goto rfl rfl (told_resumed told (seen fresh.2))
  split
  · rename_i ended
    exact honest.goto rfl rfl (told_resumed told (seen (.inr ended)))
  · refine honest.goto rfl rfl ?_
    cases c with
    | readexactly n => trivial
    | read r => exact ⟨told.1, fun _ _ finished => by cases finished⟩

theorem honest_waitStep (honest : Honest s) {c : Caller} {pc : WaitPc} (at_ : s.pc = .wait c pc)
    (allowed : noticed s .reader = true) (taken : waitStep s c pc = some s') : Honest s' := by
  have told : s.Told (.wait c pc) := at_ ▸ honest.told
  cases pc with
  | testWaiter =>
      simp only [waitStep, Option.some.injEq] at taken
      subst taken
      split
      · exact honest_raise honest
      · exact honest.goto rfl rfl (told_wait told (by decide))
  | testPaused =>
      simp only [waitStep, Option.some.injEq] at taken
      subst taken
      refine honest.goto rfl rfl (told_wait told ?_)
      split <;> decide
  | unpause =>
      simp only [waitStep, Option.some.injEq] at taken
      subst taken
      exact honest.goto rfl rfl (told_wait told (by decide))
  | resumeReading =>
      simp only [waitStep, Option.some.injEq] at taken
      subst taken
      exact honest.goto rfl rfl (told_wait told (by decide))
  | decide =>
      simp only [waitStep, Option.some.injEq] at taken
      exact taken ▸ honest_decideWait honest at_ allowed
  | parked =>
      simp only [waitStep] at taken
      split at taken
      · cases taken
      · obtain rfl := Option.some.inj taken
        refine honest.goto rfl rfl ?_
        cases c with
        | readexactly n => trivial
        | read r => exact ⟨told.1, fun single _ => told.2 single (.inl rfl)⟩
  | dropWaiter =>
      simp only [waitStep, Option.some.injEq] at taken
      subst taken
      refine honest.goto rfl rfl ?_
      cases c with
      | readexactly n => trivial
      | read r => exact ⟨told.1, fun single _ => told.2 single (.inr (.inl rfl))⟩
  | catchUp =>
      simp only [waitStep, Option.some.injEq] at taken
      subst taken
      split
      · rename_i finished
        refine honest.goto rfl rfl (told_resumed told ?_)
        rintro r rfl single
        exact told.2 single (.inr (.inr rfl)) finished
      · exact honest.goto rfl rfl trivial

theorem take_ne_nil {data : Bytes} {n : Nat} (positive : 0 < n) (nonempty : data ≠ []) :
    data.take n ≠ [] := by
  intro empty
  obtain zero | nil := List.take_eq_nil_iff.mp empty
  · omega
  · exact nonempty nil

theorem honest_readerStep (honest : Honest s) (allowed : noticed s .reader = true)
    (taken : readerStep s = some s') : Honest s' := by
  have told := honest.told
  unfold readerStep at taken
  cases pc : s.pc with
  | idle => simp [pc] at taken
  | enter call =>
      simp only [pc, Option.some.injEq] at taken
      exact taken ▸ honest_enter honest
  | readEnter n blocks =>
      simp only [pc, Option.some.injEq] at taken
      rw [pc] at told
      subst taken
      split
      · exact honest_raise honest
      · exact honest.goto rfl rfl told
  | readBuffer r =>
      simp only [pc, Option.some.injEq] at taken
      rw [pc] at told
      subst taken
      refine honest.goto rfl rfl ?_
      by_cases empty : s.buffer = []
      · simp only [if_pos empty]
        exact told
      · simp only [if_neg empty]
        exact ⟨told, fun _ => .inl empty⟩
  | readEof r =>
      simp only [pc, Option.some.injEq] at taken
      rw [pc] at told
      subst taken
      refine honest.goto rfl rfl ?_
      by_cases ended : s.eof = true
      · simp only [if_pos ended]
        exact ⟨told, fun _ => .inr ended⟩
      · simp only [if_neg ended]
        exact ⟨told, fun _ awaits => by rcases awaits with no | no | no <;> cases no⟩
  | readCopy r =>
      simp only [pc, Option.some.injEq] at taken
      rw [pc] at told
      subst taken
      refine honest.goto rfl rfl ⟨told.1, fun single => ?_⟩
      refine (told.2 single).imp ?_ id
      intro nonempty
      cases r with
      | upTo n => exact take_ne_nil told.1 nonempty
      | all n blocks => cases single
  | readDelete r data =>
      simp only [pc, Option.some.injEq] at taken
      rw [pc] at told
      subst taken
      exact honest.goto rfl rfl told
  | wait c at_ =>
      simp only [pc] at taken
      exact honest_waitStep honest pc allowed taken
  | maybeResume c data =>
      simp only [pc, Option.some.injEq] at taken
      rw [pc] at told
      subst taken
      split
      · refine honest.goto rfl rfl ?_
        cases c <;> exact told
      · exact honest_finish honest told
  | resume c data =>
      simp only [pc, Option.some.injEq] at taken
      rw [pc] at told
      subst taken
      have resumed : Honest { s with reading := true } := honest.goto rfl rfl honest.told
      rw [← pc]
      refine honest_finish resumed ?_
      cases c <;> exact told
  | incompleteClear n data =>
      simp only [pc, Option.some.injEq] at taken
      subst taken
      have cleared : Honest { s with buffer := [] } := by
        refine honest.goto rfl rfl ?_
        show State.Told _ s.pc
        rw [pc]
        trivial
      rw [← pc]
      refine honest_answer cleared ?_
      intro m _ same
      cases same
  | exactTest n =>
      simp only [pc, Option.some.injEq] at taken
      subst taken
      refine honest.goto rfl rfl ?_
      show State.Told _ (if s.buffer.length < n then .exactEof n else .exactEqual n)
      split <;> trivial
  | exactEof n =>
      simp only [pc, Option.some.injEq] at taken
      subst taken
      refine honest.goto rfl rfl ?_
      show State.Told _ (if s.eof then .incompleteCopy n else .wait (.readexactly n) .testWaiter)
      split <;> trivial
  | exactEqual n =>
      simp only [pc, Option.some.injEq] at taken
      subst taken
      refine honest.goto rfl rfl ?_
      show State.Told _ (if s.buffer.length = n then .copyAll n else .copyPrefix n)
      split <;> trivial
  | _ =>
      simp only [pc, Option.some.injEq] at taken
      subst taken
      exact honest.goto rfl rfl trivial

theorem honest_step {a : Act} (honest : Honest s) (allowed : noticed s a = true)
    (taken : step s a = some s') : Honest s' := by
  cases a with
  | feedData data =>
      obtain rfl := Option.some.inj taken
      exact honest_feedData honest data
  | feedEof =>
      obtain rfl := Option.some.inj taken
      exact honest_feedEof honest
  | setException =>
      obtain rfl := Option.some.inj taken
      exact honest_setException honest
  | cancel =>
      simp only [step] at taken
      split at taken
      · split at taken
        · obtain rfl := Option.some.inj taken
          exact honest.fed rfl rfl id id (fun finished => by cases finished)
        · cases taken
      · cases taken
  | call c =>
      simp only [step] at taken
      split at taken
      · obtain rfl := Option.some.inj taken
        exact honest.goto rfl rfl trivial
      · cases taken
  | reader => exact honest_readerStep honest allowed taken

/-! ## The law -/

/-- An empty answer to `read(n)` means that the end of the stream was fed. -/
def ReportsEnd (s : State) : Prop :=
  ∀ n : Int, 0 < n → .returned (.read n) [] ∈ s.answers → s.eof = true

/-- In every run in which no `read(n)` returns from `_wait_for_data` for an
exception with nothing buffered, it reports the end of the stream at the end
only; and what the calls hand out are bytes that were fed, in order. -/
theorem read_reports_end (reached : machine.Reach (fun s a => noticed s a = true) s) :
    ReportsEnd s ∧ s.delivered.Sublist s.fed := by
  constructor
  · have honest : Honest s := by
      refine reached.invariant Honest ?_ ?_
      · rintro s ⟨limit, transport, -, rfl⟩
        refine ⟨trivial, ?_⟩
        intro n _ answered
        cases answered
      · intro s a s' honest allowed taken
        exact honest_step honest allowed taken
    exact honest.answered
  · have law := (supplied_of_reachable reached.reachable).law
    rw [List.append_assoc] at law
    exact (List.sublist_append_left _ _).trans law

/-- `read(1)` waits until the end of the stream is fed. -/
def endRun : List Act :=
  .call (.read 1) :: List.replicate 6 .reader ++ [.feedEof] ++ List.replicate 6 .reader

theorem endRun_ends :
    (machine.execIf noticed (fresh 4 true) endRun).any
      (fun s => .returned (.read 1) [] ∈ s.answers) = true := by
  decide +kernel

theorem read_reports_end_after_wait :
    ∃ s : State, .returned (.read 1) [] ∈ s.answers ∧ s.eof = true := by
  obtain ⟨s, reached, ends⟩ :=
    Machine.Reach.exists_of_execIf (fun _ _ => id) fresh_start endRun_ends
  have answered := of_decide_eq_true ends
  exact ⟨s, answered, (read_reports_end reached).1 1 (by decide) answered⟩

/-- The exception is set between the test of `read` and the locked section of
`_wait_for_data`. -/
def resetRun : List Act :=
  .call (.read 1) :: List.replicate 5 .reader ++ [.setException] ++ List.replicate 4 .reader

theorem resetRun_ends :
    (machine.exec (fresh 4 true) resetRun).any
      (fun s => .returned (.read 1) [] ∈ s.answers ∧ s.eof = false) = true := by
  decide +kernel

/-- A connection that was reset reads as one that was closed. -/
theorem read_invents_end : ¬∀ s, machine.Reachable s → ReportsEnd s := by
  intro reports
  obtain ⟨s, reached, ends⟩ := Machine.Reachable.exists_of_exec fresh_start resetRun_ends
  obtain ⟨answered, open_⟩ := of_decide_eq_true ends
  have ended := reports s reached 1 (by decide) answered
  rw [open_] at ended
  cases ended

end MtAsyncio.Streams
