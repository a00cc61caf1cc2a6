/-
Module: MtAsyncio.Proofs.SockSent
Purpose: What `sock_sendall` sends: the buffer, when its rows are single bytes or
  no send is partial; after a partial send of longer rows it never returns.
Trusted boundary: none
Main exports: Shape.bytewise, Smooth, Exact, Fits, Sane, sane_of_reachable,
  sends_exactly_iff
-/
import MtAsyncio.Model.SockSendall

namespace MtAsyncio.SockSendall

open Lib (Machine)

variable {B : Type} {v : View B} {s s' : State B} {a : Act} {rest : List B} {n : Nat}

/-! ## The slices -/

/-- The rows are single bytes. -/
def Shape.bytewise : Shape → Bool
  | .rows _ size => size = 1
  | .scalar => false

theorem slice_eq_none : v.slice n = none ↔ v.shape = .scalar := by
  unfold View.slice
  split <;> simp_all

/-- The counter is an index where the rows are single bytes. -/
theorem slice_bytewise (bytewise : v.shape.bytewise = true) (within : n ≤ v.nbytes) :
    v.slice n = some (v.bytes.drop n) := by
  have whole := v.whole
  unfold View.slice
  cases shape : v.shape with
  | scalar =>
      rw [shape] at bytewise
      cases bytewise
  | rows count size =>
      rw [shape] at bytewise whole
      have one : size = 1 := of_decide_eq_true bytewise
      have count_ : v.nbytes = count := by
        rw [View.nbytes, whole, one, Nat.mul_one]
      simp only [one, Nat.mul_one]
      rw [Nat.min_eq_left (count_ ▸ within)]

/-- The first slice is the buffer. -/
theorem slice_zero (sliced : v.slice 0 = some rest) : rest = v.bytes := by
  unfold View.slice at sliced
  split at sliced
  · cases sliced
  · simpa using sliced.symm

/-- Behind a partial send of longer rows, what is sliced is too short to make up
for the count. -/
theorem slice_short (long : v.shape.bytewise = false) (some_ : 0 < n) (more : n < v.nbytes)
    (sliced : v.slice n = some rest) : n + rest.length < v.nbytes := by
  have whole := v.whole
  unfold View.slice at sliced
  unfold View.nbytes at more ⊢
  cases shape : v.shape with
  | scalar => simp [shape] at sliced
  | rows count size =>
      simp only [shape] at sliced
      obtain rfl := Option.some.inj sliced
      rw [shape] at long whole
      change v.bytes.length = count * size at whole
      have other : size ≠ 1 := of_decide_eq_false long
      have pos : size ≠ 0 := by
        rintro rfl
        rw [whole, Nat.mul_zero] at more
        exact Nat.not_lt_zero n more
      rw [List.length_drop]
      obtain before | beyond := Nat.le_total n count
      · have double : n * 2 ≤ n * size := Nat.mul_le_mul_left n (by omega)
        have fits : n * size ≤ count * size := Nat.mul_le_mul_right size before
        rw [Nat.min_eq_left before]
        omega
      · rw [Nat.min_eq_right beyond, ← whole]
        omega

/-! ## The claim -/

/-- The steps of the loop that are not delays or errors: the socket is ready, and a
send takes all it is given or the rows are single bytes. -/
def Smooth (v : View B) : Act → Prop
  | .test | .arm true | .wake | .clear => True
  | .send (.accepted n) => v.shape.bytewise = true ∨ v.nbytes ≤ n
  | _ => False

/-- What was accepted is a prefix, and everything when the loop is over; each send
is given the rest, of at least one byte; and the loop comes to its end. -/
structure Exact (v : View B) (s : State B) : Prop where
  before : s.accepted <+: v.bytes
  returned : s.pc = .returned → s.accepted = v.bytes
  remaining : s.pc = .sending →
    ∃ rest, v.slice s.sent = some rest ∧ rest ≠ [] ∧ s.accepted ++ rest = v.bytes
  ends : (machine v).Inevitably (Smooth v) (·.pc = .returned) s

/-- The counter is a place where a slice begins. -/
def Fits (v : View B) (s : State B) : Prop :=
  v.nbytes = 0 ∨ v.shape.bytewise = true ∨
    (v.shape ≠ .scalar ∧ (s.sent = 0 ∨ s.sent = v.nbytes))

/-! ## The loop -/

/-- In the body of the loop. -/
def Pc.inside : Pc → Bool
  | .waiting | .parked | .sending | .clearing => true
  | _ => false

/-- The counter is the length of the prefix that was sent, or it has left the rows
behind for good. -/
structure Sane (v : View B) (s : State B) : Prop where
  progress : s.accepted = v.bytes.take s.sent ∨
    (v.shape.bytewise = false ∧ 0 < s.sent ∧ s.sent < v.nbytes)
  bound : s.sent ≤ v.nbytes
  inside : s.pc.inside = true → s.sent < v.nbytes
  returned : s.pc = .returned → s.sent = v.nbytes
  unsliced : s.pc = .unsliced → v.shape = .scalar ∧ s.sent < v.nbytes
  scalar : v.shape = .scalar → s.sent = 0

theorem sane_start : Sane v (.start B) := by
  constructor <;> simp [State.start, Pc.inside]

/-- A step that leaves the counter alone. -/
theorem Sane.goes {pc : Pc} (sane : Sane v s) (inside : pc.inside = true → s.sent < v.nbytes)
    (returned : pc = .returned → s.sent = v.nbytes)
    (unsliced : pc = .unsliced → v.shape = .scalar ∧ s.sent < v.nbytes) :
    Sane v { s with pc := pc } :=
  ⟨sane.progress, sane.bound, inside, returned, unsliced, sane.scalar⟩

theorem sane_accept (sane : Sane v s) (more : s.sent < v.nbytes)
    (sliced : v.slice s.sent = some rest) (fits : n ≤ rest.length) :
    Sane v { pc := .test, sent := s.sent + n, accepted := s.accepted ++ rest.take n } := by
  have shaped : v.shape ≠ .scalar := by
    intro scalar
    rw [slice_eq_none.mpr scalar] at sliced
    cases sliced
  by_cases bytewise : v.shape.bytewise = true
  · have prefix_ := sane.progress.resolve_right (by simp [bytewise])
    rw [slice_bytewise bytewise sane.bound] at sliced
    obtain rfl := Option.some.inj sliced
    have bound := sane.bound
    rw [List.length_drop] at fits
    refine ⟨.inl ?_, ?_, by simp [Pc.inside], by simp, by simp, fun scalar => absurd scalar shaped⟩
    · rw [prefix_]
      exact List.take_add.symm
    · simp only [View.nbytes] at bound ⊢
      omega
  · have long : v.shape.bytewise = false := by simpa using bytewise
    by_cases fresh : s.sent = 0
    · have prefix_ := sane.progress.resolve_right (by simp [fresh])
      rw [fresh] at sliced prefix_
      obtain rfl := slice_zero sliced
      refine ⟨.inl ?_, ?_, by simp [Pc.inside], by simp, by simp,
        fun scalar => absurd scalar shaped⟩
      · rw [prefix_, fresh]
        simp
      · rw [fresh, Nat.zero_add]
        exact fits
    · have some_ : 0 < s.sent := Nat.pos_of_ne_zero fresh
      have short := slice_short long some_ more sliced
      refine ⟨.inr ⟨long, ?_, ?_⟩, ?_, by simp [Pc.inside], by simp, by simp,
        fun scalar => absurd scalar shaped⟩
      all_goals
        simp only
        omega

/-- What one step does. -/
theorem sane_step (sane : Sane v s) (taken : step v s a = some s') : Sane v s' := by
  cases a with
  | test =>
      simp only [step] at taken
      split at taken
      · obtain rfl := Option.some.inj taken
        by_cases more : s.sent < v.nbytes
        · rw [if_pos more]
          exact sane.goes (fun _ => more) (by simp) (by simp)
        · rw [if_neg more]
          have all : s.sent = v.nbytes := Nat.le_antisymm sane.bound (Nat.not_lt.mp more)
          exact sane.goes (by simp [Pc.inside]) (fun _ => all) (by simp)
      · cases taken
  | arm ready =>
      simp only [step] at taken
      split at taken
      · rename_i at_
        obtain rfl := Option.some.inj taken
        have more := sane.inside (by rw [at_]; rfl)
        cases ready <;> exact sane.goes (fun _ => more) (by simp) (by simp)
      · cases taken
  | wake | clear | cancel =>
      simp only [step] at taken
      split at taken
      · obtain rfl := Option.some.inj taken
        exact sane.goes (by simp [Pc.inside]) (by simp) (by simp)
      · cases taken
  | send reply =>
      simp only [step] at taken
      split at taken
      · rename_i at_
        have more := sane.inside (by rw [at_]; rfl)
        split at taken
        · rename_i refused
          obtain rfl := Option.some.inj taken
          exact sane.goes (by simp [Pc.inside]) (by simp)
            fun _ => ⟨slice_eq_none.mp refused, more⟩
        · rename_i rest sliced
          cases reply with
          | accepted n =>
              simp only [sendStep] at taken
              split at taken
              · rename_i fits
                obtain rfl := Option.some.inj taken
                exact sane_accept sane more sliced fits.1
              · cases taken
          | again =>
              obtain rfl := Option.some.inj taken
              exact sane.goes (fun _ => more) (by simp) (by simp)
          | refused =>
              obtain rfl := Option.some.inj taken
              exact sane.goes (by simp [Pc.inside]) (by simp) (by simp)
      · cases taken

theorem sane_of_reachable (reached : (machine v).Reachable s) : Sane v s := by
  refine Machine.Reach.invariant (Sane v) ?_ ?_ reached
  · rintro s rfl
    exact sane_start
  · intro s a s' sane _ taken
    exact sane_step sane taken

/-! ## The end of the loop -/

/-- How many smooth steps the loop is away from its end. -/
def Pc.rank : Pc → Nat
  | .returned | .unsliced | .failed => 0
  | .sending => 1
  | .waiting => 2
  | .test => 3
  | .parked | .clearing => 4

def State.rank (v : View B) (s : State B) : Nat :=
  (v.nbytes - s.sent) * 4 + s.pc.rank

/-- The loop is not broken off. -/
def Pc.live (pc : Pc) : Prop :=
  pc ≠ .unsliced ∧ pc ≠ .failed

/-- Where the counter fits, the next slice is the rest of the buffer. -/
theorem slice_rest (sane : Sane v s) (fits : Fits v s) (more : s.sent < v.nbytes) :
    v.slice s.sent = some (v.bytes.drop s.sent) := by
  obtain none | bytewise | ⟨shaped, zero | full⟩ := fits
  · rw [none] at more
    cases more
  · exact slice_bytewise bytewise sane.bound
  · cases sliced : v.slice s.sent with
    | none => exact absurd (slice_eq_none.mp sliced) shaped
    | some rest =>
        rw [zero] at sliced ⊢
        rw [slice_zero sliced, List.drop_zero]
  · exact absurd full (Nat.ne_of_lt more)

theorem smooth_enabled (sane : Sane v s) (fits : Fits v s) (live : s.pc.live)
    (open_ : s.pc ≠ .returned) : ∃ a s', Smooth v a ∧ (machine v).step s a = some s' := by
  cases at_ : s.pc with
  | test => exact ⟨.test, _, trivial, if_pos at_⟩
  | waiting => exact ⟨.arm true, _, trivial, if_pos at_⟩
  | parked => exact ⟨.wake, _, trivial, if_pos at_⟩
  | clearing => exact ⟨.clear, _, trivial, if_pos at_⟩
  | sending =>
      have more := sane.inside (by rw [at_]; rfl)
      have sliced := slice_rest sane fits more
      have length : (v.bytes.drop s.sent).length = v.nbytes - s.sent := List.length_drop
      have smooth : Smooth v (.send (.accepted (v.nbytes - s.sent))) := by
        obtain none | bytewise | ⟨-, zero | full⟩ := fits
        · rw [none] at more
          cases more
        · exact .inl bytewise
        · exact .inr (by rw [zero]; exact Nat.le_refl _)
        · exact absurd full (Nat.ne_of_lt more)
      have taken : (step v s (.send (.accepted (v.nbytes - s.sent)))).isSome := by
        simp only [step, if_pos at_, sliced, sendStep, length]
        rw [if_pos ⟨Nat.le_refl _, .inl (Nat.sub_pos_of_lt more)⟩]
        rfl
      obtain ⟨s', taken⟩ := Option.isSome_iff_exists.mp taken
      exact ⟨_, s', smooth, taken⟩
  | returned => exact absurd at_ open_
  | unsliced => exact absurd at_ live.1
  | failed => exact absurd at_ live.2

theorem smooth_step (sane : Sane v s) (fits : Fits v s) (smooth : Smooth v a)
    (taken : step v s a = some s') :
    Fits v s' ∧ s'.pc.live ∧ s'.rank v < s.rank v := by
  -- a step that leaves the counter alone
  have goes : ∀ {pc : Pc}, pc.live → pc.rank < s.pc.rank →
      Fits v { s with pc := pc } ∧ pc.live ∧ State.rank v { s with pc := pc } < s.rank v := by
    intro pc still less
    exact ⟨fits, still, Nat.add_lt_add_left less _⟩
  cases a with
  | test =>
      simp only [step] at taken
      split at taken
      · rename_i at_
        obtain rfl := Option.some.inj taken
        refine goes ?_ ?_
        · split <;> exact ⟨by simp, by simp⟩
        · rw [at_]
          split <;> decide
      · cases taken
  | arm ready =>
      simp only [step] at taken
      split at taken
      · rename_i at_
        obtain rfl := Option.some.inj taken
        cases ready with
        | true => exact goes ⟨by simp, by simp⟩ (by rw [at_]; decide)
        | false => exact smooth.elim
      · cases taken
  | wake | clear =>
      simp only [step] at taken
      split at taken
      · rename_i at_
        obtain rfl := Option.some.inj taken
        exact goes ⟨by simp, by simp⟩ (by rw [at_]; decide)
      · cases taken
  | cancel => exact smooth.elim
  | send reply =>
      simp only [step] at taken
      split at taken
      · rename_i at_
        have more := sane.inside (by rw [at_]; rfl)
        rw [slice_rest sane fits more] at taken
        cases reply with
        | again | refused => exact smooth.elim
        | accepted n =>
            have length : (v.bytes.drop s.sent).length = v.nbytes - s.sent := List.length_drop
            simp only [sendStep, length] at taken
            split at taken
            · rename_i within
              obtain rfl := Option.some.inj taken
              have pos : 0 < n := within.2.resolve_right (Nat.ne_of_gt (Nat.sub_pos_of_lt more))
              refine ⟨?_, ⟨by simp, by simp⟩, ?_⟩
              · obtain none | bytewise | ⟨shaped, -⟩ := fits
                · exact .inl none
                · exact .inr (.inl bytewise)
                · obtain bytewise | all := smooth
                  · exact .inr (.inl bytewise)
                  · refine .inr (.inr ⟨shaped, .inr ?_⟩)
                    have within_ := within.1
                    show s.sent + n = v.nbytes
                    omega
              · simp only [State.rank, at_, Pc.rank]
                omega
            · cases taken
      · cases taken

theorem ends_of_fits (sane : Sane v s) (fits : Fits v s) (live : s.pc.live) :
    (machine v).Inevitably (Smooth v) (·.pc = .returned) s := by
  refine Machine.inevitably_of_measure (fun s => Sane v s ∧ Fits v s ∧ s.pc.live)
    (State.rank v) ?_ ?_ ⟨sane, fits, live⟩
  · rintro s ⟨sane, fits, live⟩ open_
    exact smooth_enabled sane fits live open_
  · rintro s a s' ⟨sane, fits, live⟩ - smooth taken
    obtain ⟨fits', live', less⟩ := smooth_step sane fits smooth taken
    exact ⟨⟨sane_step sane taken, fits', live'⟩, less⟩

/-! ## Behind a partial send -/

/-- The counter is behind the rows it could be an index of, or nothing can be
sliced. -/
def Stuck (v : View B) (s : State B) : Prop :=
  s.sent < v.nbytes ∧ v.shape.bytewise = false ∧ (v.shape = .scalar ∨ 0 < s.sent)

theorem stuck_of_not_fits (sane : Sane v s) (not : ¬Fits v s) : Stuck v s := by
  have long : v.shape.bytewise = false := by
    cases bytewise : v.shape.bytewise with
    | false => rfl
    | true => exact absurd (.inr (.inl bytewise)) not
  by_cases scalar : v.shape = .scalar
  · refine ⟨?_, long, .inl scalar⟩
    rw [sane.scalar scalar]
    exact Nat.pos_of_ne_zero fun none => not (.inl none)
  · have some_ : s.sent ≠ 0 := fun zero => not (.inr (.inr ⟨scalar, .inl zero⟩))
    have more : s.sent ≠ v.nbytes := fun full => not (.inr (.inr ⟨scalar, .inr full⟩))
    exact ⟨Nat.lt_of_le_of_ne sane.bound more, long, .inr (Nat.pos_of_ne_zero some_)⟩

theorem stuck_step (stuck : Stuck v s) (taken : step v s a = some s') : Stuck v s' := by
  obtain ⟨more, long, cause⟩ := stuck
  have goes : ∀ {pc : Pc}, Stuck v { s with pc := pc } := fun {_} => ⟨more, long, cause⟩
  cases a with
  | send reply =>
      simp only [step] at taken
      split at taken
      · split at taken
        · obtain rfl := Option.some.inj taken
          exact goes
        · rename_i rest sliced
          cases reply with
          | accepted n =>
              simp only [sendStep] at taken
              split at taken
              · rename_i fits
                obtain rfl := Option.some.inj taken
                have some_ : 0 < s.sent := by
                  refine cause.resolve_left ?_
                  intro scalar
                  rw [slice_eq_none.mpr scalar] at sliced
                  cases sliced
                have short := slice_short long some_ more sliced
                have taken := fits.1
                refine ⟨?_, long, .inr ?_⟩
                all_goals
                  simp only
                  omega
              · cases taken
          | again | refused =>
              obtain rfl := Option.some.inj taken
              exact goes
      · cases taken
  | test | arm _ | wake | clear | cancel =>
      simp only [step] at taken
      split at taken
      · obtain rfl := Option.some.inj taken
        exact goes
      · cases taken

/-- The loop of a stuck counter never ends. -/
theorem never_ends (reached : (machine v).Reachable s) (stuck : Stuck v s) :
    ¬(machine v).Inevitably (Smooth v) (·.pc = .returned) s := by
  intro bound
  refine Machine.Inevitably.not_of_invariant (fun s => Sane v s ∧ Stuck v s) ?_ ?_ bound
    ⟨sane_of_reachable reached, stuck⟩
  · rintro s a s' ⟨sane, stuck⟩ - taken
    exact ⟨sane_step sane taken, stuck_step stuck taken⟩
  · rintro s ⟨sane, stuck⟩ returned
    exact Nat.ne_of_lt stuck.1 (sane.returned returned)

/-! ## The equivalence -/

theorem exact_of_fits (sane : Sane v s) (fits : Fits v s) (live : s.pc.live) : Exact v s := by
  have prefix_ : s.accepted = v.bytes.take s.sent := by
    refine sane.progress.resolve_right ?_
    rintro ⟨long, some_, more⟩
    obtain none | bytewise | ⟨-, zero | full⟩ := fits
    · rw [none] at more
      cases more
    · rw [bytewise] at long
      cases long
    · exact Nat.ne_of_gt some_ zero
    · exact Nat.ne_of_lt more full
  refine ⟨?_, ?_, ?_, ends_of_fits sane fits live⟩
  · rw [prefix_]
    exact List.take_prefix _ _
  · intro returned
    rw [prefix_, sane.returned returned]
    exact List.take_length
  · intro at_
    have more := sane.inside (by rw [at_]; rfl)
    refine ⟨_, slice_rest sane fits more, ?_, ?_⟩
    · intro empty
      have length : (v.bytes.drop s.sent).length = v.nbytes - s.sent := List.length_drop
      rw [empty] at length
      exact Nat.ne_of_gt (Nat.sub_pos_of_lt more) length.symm
    · rw [prefix_]
      exact List.take_append_drop _ _

/-- In every state of every run that no error ends, `sock_sendall` sends exactly the
buffer if and only if its counter is a place where a slice begins. -/
theorem sends_exactly_iff (reached : (machine v).Reachable s) (open_ : s.pc ≠ .failed) :
    Exact v s ↔ Fits v s := by
  have sane := sane_of_reachable reached
  constructor
  · intro exact_
    by_contra not
    exact never_ends reached (stuck_of_not_fits sane not) exact_.ends
  · intro fits
    refine exact_of_fits sane fits ⟨?_, open_⟩
    intro unsliced
    obtain ⟨scalar, more⟩ := sane.unsliced unsliced
    obtain none | bytewise | ⟨shaped, -⟩ := fits
    · rw [none] at more
      cases more
    · rw [scalar] at bytewise
      cases bytewise
    · exact shaped scalar

/-! ## Runs -/

/-- Five bytes. -/
def fiveBytes : View Nat where
  bytes := [10, 20, 30, 40, 50]
  shape := .rows 5 1
  whole := rfl

theorem partialRun_ends :
    ((machine fiveBytes).exec (.start Nat)
      [.test, .arm false, .wake, .test, .arm true, .send .again, .clear, .test, .arm true,
        .send (.accepted 2), .test, .arm true]).any
      (fun s => s.pc = .sending ∧ s.accepted = [10, 20]) = true := by
  decide +kernel

theorem sends_exactly_bytes :
    ∃ s : State Nat, s.pc = .sending ∧ s.accepted = [10, 20] ∧ Exact fiveBytes s := by
  obtain ⟨s, reached, ends⟩ := Machine.Reachable.exists_of_exec rfl partialRun_ends
  obtain ⟨at_, accepted⟩ := of_decide_eq_true ends
  refine ⟨s, at_, accepted, (sends_exactly_iff reached ?_).mpr (.inr (.inl rfl))⟩
  rw [at_]
  decide

/-- Two items of four bytes. -/
def twoWords : View Nat where
  bytes := [10, 11, 12, 13, 20, 21, 22, 23]
  shape := .rows 2 4
  whole := rfl

/-- The first send takes one byte, and the second one is given the second item. -/
theorem wordRun_ends :
    ((machine twoWords).exec (.start Nat)
      [.test, .arm true, .send (.accepted 1), .test, .arm true, .send (.accepted 4)]).any
      (fun s => s.accepted = [10, 20, 21, 22, 23]) = true := by
  decide +kernel

theorem sends_wrong_bytes :
    ¬∀ s : State Nat, (machine twoWords).Reachable s → Exact twoWords s := by
  intro always
  obtain ⟨s, reached, ends⟩ := Machine.Reachable.exists_of_exec rfl wordRun_ends
  have accepted : s.accepted = [10, 20, 21, 22, 23] := of_decide_eq_true ends
  have wrong := (always s reached).before
  rw [accepted] at wrong
  exact absurd wrong (by decide)

end MtAsyncio.SockSendall
