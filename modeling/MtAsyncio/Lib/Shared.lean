/-
Module: MtAsyncio.Lib.Shared
Purpose: Values with several owners, as `Arc` has them.  The references are a list
  of pairs of an owner and a value; a value lives as long as somebody owns it, and
  its strong count is the number of its references.
Trusted boundary: none
Main exports: Refs, Refs.strong, Refs.Held, Refs.strong_pos_iff, Refs.drop,
  Refs.give, Refs.dropAll, Refs.giveAll, with membership and counts after each of them
-/
import Mathlib.Data.List.Basic
import Mathlib.Tactic.TypeStar

namespace MtAsyncio.Lib

variable {O A : Type*} [DecidableEq O] [DecidableEq A]

/-- Who owns which value, one pair for each reference. -/
abbrev Refs (O A : Type*) := List (O × A)

namespace Refs

variable {refs : Refs O A} {o p : O} {a b : A}

/-- The strong count of a value. -/
def strong (refs : Refs O A) (a : A) : Nat :=
  refs.countP fun reference => reference.2 = a

/-- Somebody owns the value. -/
def Held (refs : Refs O A) (a : A) : Prop :=
  ∃ o, (o, a) ∈ refs

omit [DecidableEq O] in
theorem strong_pos_iff : 0 < refs.strong a ↔ refs.Held a := by
  rw [strong, List.countP_pos_iff]
  constructor
  · rintro ⟨reference, member, isValue⟩
    rcases reference with ⟨owner, value⟩
    have same : value = a := of_decide_eq_true isValue
    exact ⟨owner, same ▸ member⟩
  · rintro ⟨owner, member⟩
    exact ⟨(owner, a), member, decide_eq_true rfl⟩

omit [DecidableEq O] in
theorem not_held_of_strong (zero : refs.strong a = 0) : ¬refs.Held a := by
  intro held
  have positive := strong_pos_iff.mpr held
  omega

/-- An owner drops one reference. -/
def drop (refs : Refs O A) (o : O) (a : A) : Refs O A :=
  refs.erase (o, a)

/-- One reference goes from an owner to another. -/
def give (refs : Refs O A) (o p : O) (a : A) : Refs O A :=
  (p, a) :: refs.erase (o, a)

/-- An owner drops all that it has. -/
def dropAll (refs : Refs O A) (o : O) : Refs O A :=
  refs.filter fun reference => reference.1 ≠ o

/-- An owner gives all that it has to another. -/
def giveAll (refs : Refs O A) (o p : O) : Refs O A :=
  refs.map fun reference => if reference.1 = o then (p, reference.2) else reference

theorem mem_of_drop (member : (p, b) ∈ refs.drop o a) : (p, b) ∈ refs :=
  List.mem_of_mem_erase member

/-- Another reference is not dropped with it. -/
theorem mem_drop (member : (p, b) ∈ refs) (other : p ≠ o ∨ b ≠ a) : (p, b) ∈ refs.drop o a := by
  refine (List.mem_erase_of_ne ?_).mpr member
  intro same
  rcases other with owner | value
  · exact owner (congrArg Prod.fst same)
  · exact value (congrArg Prod.snd same)

theorem mem_of_give {q : O} (member : (q, b) ∈ refs.give o p a) :
    (q, b) ∈ refs ∨ q = p ∧ b = a := by
  rcases List.mem_cons.mp member with same | old
  · exact .inr (Prod.mk.inj same)
  · exact .inl (List.mem_of_mem_erase old)

theorem mem_give {q : O} (member : (q, b) ∈ refs) (other : q ≠ o ∨ b ≠ a) :
    (q, b) ∈ refs.give o p a :=
  List.mem_cons_of_mem _ (mem_drop member other)

omit [DecidableEq A] in
theorem mem_dropAll : (p, b) ∈ refs.dropAll o ↔ (p, b) ∈ refs ∧ p ≠ o := by
  simp only [dropAll, List.mem_filter, decide_eq_true_eq, ne_eq]

omit [DecidableEq A] in
theorem mem_giveAll {q : O} :
    (q, b) ∈ refs.giveAll o p ↔ (q, b) ∈ refs ∧ q ≠ o ∨ (o, b) ∈ refs ∧ q = p := by
  simp only [giveAll, List.mem_map]
  constructor
  · rintro ⟨reference, member, same⟩
    rcases reference with ⟨owner, value⟩
    split at same
    · rename_i isOwner
      cases same
      simp only at isOwner
      exact .inr ⟨isOwner ▸ member, rfl⟩
    · rename_i notOwner
      cases same
      exact .inl ⟨member, notOwner⟩
  · rintro (⟨member, other⟩ | ⟨member, rfl⟩)
    · exact ⟨(q, b), member, if_neg other⟩
    · exact ⟨(o, b), member, if_pos rfl⟩

/-! ## How often an owner has a value -/

variable {q : O}

theorem count_drop_of_ne (other : q ≠ o ∨ b ≠ a) :
    (refs.drop o a).count (q, b) = refs.count (q, b) := by
  refine List.count_erase_of_ne ?_
  intro same
  rcases other with owner | value
  · exact owner (congrArg Prod.fst same)
  · exact value (congrArg Prod.snd same)

theorem count_drop_self : (refs.drop o a).count (o, a) = refs.count (o, a) - 1 :=
  List.count_erase_self

theorem count_cons (other : q ≠ o) :
    List.count (q, b) ((o, a) :: refs) = refs.count (q, b) := by
  refine List.count_cons_of_ne ?_
  intro same
  exact other (congrArg Prod.fst same).symm

/-- The new owner aside, giving a value away is dropping it. -/
theorem count_give (notNew : q ≠ p) :
    (refs.give o p a).count (q, b) = (refs.drop o a).count (q, b) :=
  count_cons notNew

theorem count_dropAll (other : q ≠ o) : (refs.dropAll o).count (q, b) = refs.count (q, b) :=
  List.count_filter (decide_eq_true other)

theorem count_giveAll (notOld : q ≠ o) (notNew : q ≠ p) :
    (refs.giveAll o p).count (q, b) = refs.count (q, b) := by
  induction refs with
  | nil => rfl
  | cons reference rest inductionHypothesis =>
      rcases reference with ⟨owner, value⟩
      have head : giveAll ((owner, value) :: rest) o p =
          (if owner = o then (p, value) else (owner, value)) :: giveAll rest o p := rfl
      rw [head, List.count_cons, List.count_cons, inductionHypothesis]
      congr 1
      by_cases isOld : owner = o
      · subst isOld
        rw [if_pos rfl]
        have notThis : ((p, value) == (q, b)) = false := by
          simpa using fun same => absurd same.symm notNew
        have notThat : ((owner, value) == (q, b)) = false := by
          simpa using fun same => absurd same.symm notOld
        rw [notThis, notThat]
      · rw [if_neg isOld]

end Refs

end MtAsyncio.Lib
