/-
Module: MtAsyncio.Lib.Places
Purpose: Things that are in exactly one place.  A relation `at_` says what is
  where; it is settled when everything is in exactly one place, and it stays
  settled when one thing moves and nothing else does.  A tally counts how often
  one thing is in each place; it is in one place once, and stays so when two
  places exchange it.  A scarce one is in one place at most, and stays so when
  it is lost, too.
Trusted boundary: none
Main exports: Settled, Moved, Settled.same, Settled.moved, Settled.apart, Once,
  Once.same, Once.transfer, Once.apart, Scarce, Scarce.less, Scarce.transfer,
  Scarce.apart
-/
import Mathlib.Logic.ExistsUnique
import Mathlib.Tactic.ByContra
import Mathlib.Tactic.TypeStar

namespace MtAsyncio.Lib

variable {C P : Type*} {before after : C → P → Prop} {c : C} {p q : P}

/-- Everything is in exactly one place. -/
def Settled (at_ : C → P → Prop) : Prop :=
  ∀ c, ∃! p, at_ c p

/-- The one change is that `c` went from `p` to `q`. -/
structure Moved (before after : C → P → Prop) (c : C) (p q : P) : Prop where
  others : ∀ d, d ≠ c → ∀ r, after d r ↔ before d r
  elsewhere : ∀ r, r ≠ p → r ≠ q → (after c r ↔ before c r)
  left : ¬after c p
  arrived : after c q

/-- What is in one place is in no other. -/
theorem Settled.apart (settled : Settled before) (here : before c p) (apart : q ≠ p) :
    ¬before c q := by
  intro there
  exact apart ((settled c).unique there here)

theorem Settled.same (settled : Settled before) (same : ∀ c p, after c p ↔ before c p) :
    Settled after := by
  have equal : after = before := by
    funext c p
    exact propext (same c p)
  exact equal ▸ settled

theorem Settled.moved (settled : Settled before) (here : before c p)
    (moved : Moved before after c p q) : Settled after := by
  intro d
  by_cases isC : d = c
  · subst isC
    refine ⟨q, moved.arrived, ?_⟩
    intro r there
    by_contra notQ
    by_cases isP : r = p
    · exact moved.left (isP ▸ there)
    · exact settled.apart here isP ((moved.elsewhere r isP notQ).mp there)
  · obtain ⟨r, there, unique⟩ := settled d
    refine ⟨r, (moved.others d isC r).mpr there, ?_⟩
    intro r' there'
    exact unique r' ((moved.others d isC r').mp there')

/-! ## Tallies -/

/-- One place has it once, and no other place has it. -/
def Once (tally : P → Nat) : Prop :=
  ∃ p, tally p = 1 ∧ ∀ q, q ≠ p → tally q = 0

variable {counts counts' : P → Nat}

theorem Once.same (once : Once counts) (same : ∀ p, counts' p = counts p) : Once counts' := by
  have equal : counts' = counts := funext same
  exact equal ▸ once

theorem Once.apart (once : Once counts) (here : counts p ≠ 0) (other : q ≠ p) : counts q = 0 := by
  obtain ⟨home, -, none⟩ := once
  have isHome : p = home := by
    by_contra elsewhere
    exact here (none p elsewhere)
  exact none q (isHome ▸ other)

theorem Once.le_one (once : Once counts) (p : P) : counts p ≤ 1 := by
  obtain ⟨home, one, none⟩ := once
  by_cases isHome : p = home
  · exact isHome ▸ Nat.le_of_eq one
  · rw [none p isHome]
    exact Nat.zero_le 1

/-- Two places exchange what they have between them. -/
theorem Once.transfer (once : Once counts) (other : p ≠ q)
    (total : counts' p + counts' q = counts p + counts q)
    (elsewhere : ∀ r, r ≠ p → r ≠ q → counts' r = counts r) : Once counts' := by
  obtain ⟨home, one, none⟩ := once
  -- where it is now depends on whether it was with one of the two
  by_cases between : home = p ∨ home = q
  · have sum : counts' p + counts' q = 1 := by
      rcases between with rfl | rfl
      · rw [total, one, none q other.symm]
      · rw [total, one, none p other]
    have away : ∀ r, r ≠ p → r ≠ q → counts' r = 0 := by
      intro r notP notQ
      rw [elsewhere r notP notQ]
      rcases between with rfl | rfl
      · exact none r notP
      · exact none r notQ
    by_cases atP : counts' p = 1
    · refine ⟨p, atP, ?_⟩
      intro r notP
      by_cases isQ : r = q
      · rw [isQ]
        omega
      · exact away r notP isQ
    · refine ⟨q, by omega, ?_⟩
      intro r notQ
      by_cases isP : r = p
      · rw [isP]
        omega
      · exact away r isP notQ
  · have notP : home ≠ p := fun same => between (.inl same)
    have notQ : home ≠ q := fun same => between (.inr same)
    have zero : counts p + counts q = 0 := by
      rw [none p notP.symm, none q notQ.symm]
    refine ⟨home, (elsewhere home notP notQ).trans one, ?_⟩
    intro r notHome
    by_cases isP : r = p
    · rw [isP]
      omega
    · by_cases isQ : r = q
      · rw [isQ]
        omega
      · rw [elsewhere r isP isQ]
        exact none r notHome

/-- One place may have it once, and no other place has it. -/
def Scarce (tally : P → Nat) : Prop :=
  ∃ p, tally p ≤ 1 ∧ ∀ q, q ≠ p → tally q = 0

theorem Scarce.less (scarce : Scarce counts) (less : ∀ p, counts' p ≤ counts p) :
    Scarce counts' := by
  obtain ⟨home, one, none⟩ := scarce
  refine ⟨home, Nat.le_trans (less home) one, ?_⟩
  intro q notHome
  exact Nat.eq_zero_of_le_zero (none q notHome ▸ less q)

theorem Scarce.apart (scarce : Scarce counts) (here : counts p ≠ 0) (other : q ≠ p) :
    counts q = 0 := by
  obtain ⟨home, -, none⟩ := scarce
  have isHome : p = home := by
    by_contra elsewhere
    exact here (none p elsewhere)
  exact none q (isHome ▸ other)

/-- Two places exchange what they have between them, or lose it. -/
theorem Scarce.transfer (scarce : Scarce counts) (other : p ≠ q)
    (total : counts' p + counts' q ≤ counts p + counts q)
    (elsewhere : ∀ r, r ≠ p → r ≠ q → counts' r = counts r) : Scarce counts' := by
  obtain ⟨home, one, none⟩ := scarce
  by_cases between : home = p ∨ home = q
  · have sum : counts' p + counts' q ≤ 1 := by
      rcases between with rfl | rfl
      · have away := none q other.symm
        omega
      · have away := none p other
        omega
    have away : ∀ r, r ≠ p → r ≠ q → counts' r = 0 := by
      intro r notP notQ
      rw [elsewhere r notP notQ]
      rcases between with rfl | rfl
      · exact none r notP
      · exact none r notQ
    by_cases atP : counts' p = 0
    · refine ⟨q, by omega, ?_⟩
      intro r notQ
      by_cases isP : r = p
      · exact isP ▸ atP
      · exact away r isP notQ
    · refine ⟨p, by omega, ?_⟩
      intro r notP
      by_cases isQ : r = q
      · rw [isQ]
        omega
      · exact away r notP isQ
  · have notP : p ≠ home := fun same => between (.inl same.symm)
    have notQ : q ≠ home := fun same => between (.inr same.symm)
    have zeroP := none p notP
    have zeroQ := none q notQ
    refine ⟨home, elsewhere home notP.symm notQ.symm ▸ one, ?_⟩
    intro r notHome
    by_cases isP : r = p
    · rw [isP]
      omega
    · by_cases isQ : r = q
      · rw [isQ]
        omega
      · rw [elsewhere r isP isQ]
        exact none r notHome

end MtAsyncio.Lib
