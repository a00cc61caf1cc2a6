/-
Module: MtAsyncio.Lib.Counting
Purpose: How many things have a property, over a type that need not be finite:
  exactly so many, or at least so many, and how the number changes when one
  thing gets or loses the property.
Trusted boundary: none
Main exports: Exactly, Exactly.congr, Exactly.gain, Exactly.lose, Exactly.move,
  Exactly.card_le, Exactly.left, AtLeast, AtLeast.mono, AtLeast.gain, AtLeast.lose
-/
import Mathlib.Data.Finset.Card
import Mathlib.Data.Finset.Sum

namespace MtAsyncio.Lib

variable {A : Type*} {p q : A → Prop} {a : A} {n m : Nat}

/-- Exactly `n` things have the property. -/
def Exactly (p : A → Prop) (n : Nat) : Prop :=
  ∃ those : Finset A, (∀ x, x ∈ those ↔ p x) ∧ those.card = n

theorem Exactly.congr (exactly : Exactly p n) (same : ∀ x, q x ↔ p x) : Exactly q n := by
  obtain ⟨those, members, size⟩ := exactly
  exact ⟨those, fun x => (members x).trans (same x).symm, size⟩

theorem Exactly.none (no : ∀ x, ¬p x) : Exactly p 0 := by
  refine ⟨∅, ?_, Finset.card_empty⟩
  intro x
  exact iff_of_false (Finset.notMem_empty x) (no x)

theorem Exactly.pos (exactly : Exactly p n) (has : p a) : 0 < n := by
  obtain ⟨those, members, rfl⟩ := exactly
  exact Finset.card_pos.mpr ⟨a, (members a).mpr has⟩

theorem Exactly.exists_of_pos (exactly : Exactly p n) (some_ : 0 < n) : ∃ a, p a := by
  obtain ⟨those, members, rfl⟩ := exactly
  obtain ⟨a, member⟩ := Finset.card_pos.mp some_
  exact ⟨a, (members a).mp member⟩

/-- One more thing has the property. -/
theorem Exactly.gain [DecidableEq A] (exactly : Exactly p n) (new : ¬p a)
    (gains : ∀ x, q x ↔ x = a ∨ p x) : Exactly q (n + 1) := by
  obtain ⟨those, members, rfl⟩ := exactly
  refine ⟨insert a those, ?_,
    Finset.card_insert_of_notMem fun member => new ((members a).mp member)⟩
  intro x
  rw [Finset.mem_insert, members, gains]

/-- One thing less has the property. -/
theorem Exactly.lose [DecidableEq A] (exactly : Exactly p n) (has : p a)
    (loses : ∀ x, q x ↔ x ≠ a ∧ p x) : Exactly q (n - 1) := by
  obtain ⟨those, members, rfl⟩ := exactly
  refine ⟨those.erase a, ?_, Finset.card_erase_of_mem ((members a).mpr has)⟩
  intro x
  rw [Finset.mem_erase, members, loses]

/-- The property goes from one thing to another. -/
theorem Exactly.move [DecidableEq A] {b : A} (exactly : Exactly p n) (has : p a) (new : ¬p b)
    (moves : ∀ x, q x ↔ x = b ∨ x ≠ a ∧ p x) : Exactly q n := by
  have lost : Exactly (fun x => x ≠ a ∧ p x) (n - 1) := exactly.lose has fun x => Iff.rfl
  have gained : Exactly q (n - 1 + 1) := lost.gain (fun still => new still.2) moves
  have pos := exactly.pos has
  rwa [Nat.sub_add_cancel pos] at gained

/-- Distinct things that all have the property are no more than those counted. -/
theorem Exactly.card_le {B : Type*} {those : Finset B} (exactly : Exactly p n) (f : B ↪ A)
    (have_ : ∀ x ∈ those, p (f x)) : those.card ≤ n := by
  obtain ⟨all, members, rfl⟩ := exactly
  rw [← Finset.card_map f]
  refine Finset.card_le_card ?_
  intro y member
  obtain ⟨x, inThose, rfl⟩ := Finset.mem_map.mp member
  exact (members _).mpr (have_ x inThose)

/-- The things of the second kind do not count when none of them has the property. -/
theorem Exactly.left {B : Type*} {p : A ⊕ B → Prop} (exactly : Exactly p n)
    (no : ∀ y, ¬p (.inr y)) : Exactly (fun x => p (.inl x)) n := by
  obtain ⟨those, members, rfl⟩ := exactly
  refine ⟨those.toLeft, ?_, ?_⟩
  · intro x
    rw [Finset.mem_toLeft, members]
  · have right : those.toRight = ∅ := by
      refine Finset.eq_empty_of_forall_notMem ?_
      intro y member
      exact no y ((members _).mp (Finset.mem_toRight.mp member))
    rw [← Finset.card_toLeft_add_card_toRight, right, Finset.card_empty, Nat.add_zero]

/-- At least `n` things have the property. -/
def AtLeast (p : A → Prop) (n : Nat) : Prop :=
  ∃ those : Finset A, (∀ x ∈ those, p x) ∧ n ≤ those.card

theorem AtLeast.zero : AtLeast p 0 :=
  ⟨∅, fun x member => absurd member (Finset.notMem_empty x), Nat.zero_le _⟩

theorem AtLeast.mono (atLeast : AtLeast p n) (still : ∀ x, p x → q x) (fewer : m ≤ n) :
    AtLeast q m := by
  obtain ⟨those, members, size⟩ := atLeast
  exact ⟨those, fun x member => still x (members x member), fewer.trans size⟩

theorem AtLeast.gain [DecidableEq A] (atLeast : AtLeast p n) (new : ¬p a) (has : q a)
    (still : ∀ x, p x → q x) : AtLeast q (n + 1) := by
  obtain ⟨those, members, size⟩ := atLeast
  refine ⟨insert a those, ?_, ?_⟩
  · intro x member
    obtain rfl | old := Finset.mem_insert.mp member
    · exact has
    · exact still x (members x old)
  · rw [Finset.card_insert_of_notMem fun member => new (members a member)]
    exact Nat.succ_le_succ size

theorem AtLeast.lose [DecidableEq A] (atLeast : AtLeast p n)
    (still : ∀ x, x ≠ a → p x → q x) : AtLeast q (n - 1) := by
  obtain ⟨those, members, size⟩ := atLeast
  refine ⟨those.erase a, ?_, ?_⟩
  · intro x member
    obtain ⟨other, old⟩ := Finset.mem_erase.mp member
    exact still x other (members x old)
  · have close := Finset.pred_card_le_card_erase (s := those) (a := a)
    omega

end MtAsyncio.Lib
