/-
Module: MtAsyncio.Lib.Priority
Purpose: Storages that give out an item that is greatest under a comparison, and the
  loop that takes items out of a storage as long as its next one is wanted.
Trusted boundary: none
Main exports: greatestFirst, Storage.peek, Storage.takeWhile, takeWhile_perm,
  takeWhile_wanted, takeWhile_sorted, takeWhile_leaves
-/
import MtAsyncio.Lib.Storage

namespace MtAsyncio.Lib

variable {A : Type*} {B : Type*}

/-- An item first to which no other one compares as greater. -/
def greatestFirst (cmp : A → A → Ordering) : Discipline A where
  accepts before x after := after.Perm (x :: before)
  returns before x after := before.Perm (x :: after) ∧ ∀ y ∈ before, cmp y x ≠ .gt
  accepts_perm := by
    intro before x after accepted
    exact accepted
  returns_perm := by
    intro before x after returned
    exact returned.1

namespace Storage

variable {D : Discipline A} (S : Storage D B) (wanted : A → Bool)

/-- The next item to be given out. -/
def peek (b : B) : Option A :=
  (S.get b).map Prod.fst

/-- Take out at most so many items while the next one is wanted. -/
def takeAtMost : Nat → B → List A × B
  | 0, b => ([], b)
  | n + 1, b =>
      match S.get b with
      | none => ([], b)
      | some (x, rest) =>
          if wanted x then (x :: (takeAtMost n rest).1, (takeAtMost n rest).2) else ([], b)

/-- Take items out while the next one is wanted. -/
def takeWhile (b : B) : List A × B :=
  S.takeAtMost wanted (S.contents b).length b

variable {S} {wanted} {b : B} {n : Nat}

theorem peek_eq_none : S.peek b = none ↔ S.contents b = [] := by
  unfold peek
  rw [Option.map_eq_none_iff]
  constructor
  · intro none
    by_contra nonempty
    have some_ := S.get_isSome b nonempty
    rw [none] at some_
    cases some_
  · intro empty
    cases got : S.get b with
    | none => rfl
    | some next =>
        have perm := D.returns_perm _ _ _ (S.get_returns b next.1 next.2 got)
        rw [empty] at perm
        exact absurd perm.symm.eq_nil (List.cons_ne_nil _ _)

theorem peek_mem {x : A} (isNext : S.peek b = some x) : x ∈ S.contents b := by
  obtain ⟨⟨x', rest⟩, got, rfl⟩ := Option.map_eq_some_iff.mp isNext
  exact (D.returns_perm _ _ _ (S.get_returns b x' rest got)).mem_iff.mpr List.mem_cons_self

theorem takeAtMost_perm :
    (S.contents b).Perm
      ((S.takeAtMost wanted n b).1 ++ S.contents (S.takeAtMost wanted n b).2) := by
  induction n generalizing b with
  | zero => exact .refl _
  | succ n inductionHypothesis =>
      unfold takeAtMost
      split
      · exact .refl _
      · rename_i x rest got
        split
        · have perm := D.returns_perm _ _ _ (S.get_returns b x rest got)
          exact perm.trans (.cons x inductionHypothesis)
        · exact .refl _

theorem takeAtMost_wanted : ∀ x ∈ (S.takeAtMost wanted n b).1, wanted x = true := by
  induction n generalizing b with
  | zero =>
      intro x member
      cases member
  | succ n inductionHypothesis =>
      unfold takeAtMost
      split
      · intro x member
        cases member
      · split
        · rename_i isWanted
          intro y member
          obtain rfl | later := List.mem_cons.mp member
          · exact isWanted
          · exact inductionHypothesis y later
        · intro x member
          cases member

/-- With room for all of them, the taking ends where the next item is not wanted. -/
theorem takeAtMost_ends (room : (S.contents b).length ≤ n) :
    ∀ x, S.peek (S.takeAtMost wanted n b).2 = some x → wanted x = false := by
  induction n generalizing b with
  | zero =>
      have empty := List.eq_nil_of_length_eq_zero (Nat.le_zero.mp room)
      intro x isNext
      change S.peek b = some x at isNext
      rw [peek_eq_none.mpr empty] at isNext
      cases isNext
  | succ n inductionHypothesis =>
      unfold takeAtMost
      split
      · rename_i got
        intro x isNext
        simp [peek, got] at isNext
      · rename_i x rest got
        split
        · have length := D.returns_length (S.get_returns b x rest got)
          exact inductionHypothesis (by omega)
        · rename_i unwanted
          intro y isNext
          simp only [peek, got, Option.map_some, Option.some.injEq] at isNext
          rw [← isNext]
          simpa using unwanted

/-! ## A greatest item first -/

variable {cmp : A → A → Ordering} {G : Storage (greatestFirst cmp) B}

theorem peek_greatest {x : A} (isNext : G.peek b = some x) : ∀ y ∈ G.contents b, cmp y x ≠ .gt := by
  obtain ⟨⟨x', rest⟩, got, rfl⟩ := Option.map_eq_some_iff.mp isNext
  exact (G.get_returns b x' rest got).2

/-- What is taken comes out in the order of the comparison. -/
theorem takeAtMost_sorted :
    (G.takeAtMost wanted n b).1.Pairwise fun x y => cmp y x ≠ .gt := by
  induction n generalizing b with
  | zero => exact .nil
  | succ n inductionHypothesis =>
      unfold takeAtMost
      split
      · exact .nil
      · rename_i x rest got
        split
        · obtain ⟨perm, greatest⟩ := G.get_returns b x rest got
          refine .cons ?_ inductionHypothesis
          intro y member
          refine greatest y (perm.mem_iff.mpr (List.mem_cons_of_mem x ?_))
          exact takeAtMost_perm.mem_iff.mpr (List.mem_append_left _ member)
        · exact .nil

/-! ## The loop -/

theorem takeWhile_perm :
    (S.contents b).Perm ((S.takeWhile wanted b).1 ++ S.contents (S.takeWhile wanted b).2) :=
  takeAtMost_perm

theorem takeWhile_wanted : ∀ x ∈ (S.takeWhile wanted b).1, wanted x = true :=
  takeAtMost_wanted

theorem takeWhile_sorted : (G.takeWhile wanted b).1.Pairwise fun x y => cmp y x ≠ .gt :=
  takeAtMost_sorted

/-- When whatever compares as no less than a wanted item is wanted, none is left. -/
theorem takeWhile_leaves
    (upward : ∀ x y, wanted y = true → cmp y x ≠ .gt → wanted x = true) :
    ∀ y ∈ G.contents (G.takeWhile wanted b).2, wanted y = false := by
  intro y member
  cases isNext : G.peek (G.takeWhile wanted b).2 with
  | none =>
      rw [peek_eq_none.mp isNext] at member
      cases member
  | some x =>
      have unwanted := takeAtMost_ends (Nat.le_refl _) x isNext
      cases isWanted : wanted y with
      | false => rfl
      | true =>
          have also := upward x y isWanted (peek_greatest isNext y member)
          rw [unwanted] at also
          cases also

end Storage

end MtAsyncio.Lib
