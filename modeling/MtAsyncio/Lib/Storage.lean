/-
Module: MtAsyncio.Lib.Storage
Purpose: Collections that give out their items in a prescribed order.  A
  discipline relates the contents before and after an item is put in or given
  out; a storage implements a discipline, and its laws are fields of it.
Trusted boundary: none
Main exports: Discipline, oldestFirst, newestFirst, leastFirst, Storage,
  Discipline.accepts_length, Discipline.returns_length
-/
import Mathlib.Data.List.Perm.Basic
import Mathlib.Tactic.TypeStar

namespace MtAsyncio.Lib

variable {A : Type*}

/-- `accepts before x after`: with the contents `before`, putting `x` in leads to
`after`; `returns before x after`: giving out `x` does. -/
structure Discipline (A : Type*) where
  accepts : List A → A → List A → Prop
  returns : List A → A → List A → Prop
  accepts_perm : ∀ before x after, accepts before x after → after.Perm (x :: before)
  returns_perm : ∀ before x after, returns before x after → before.Perm (x :: after)

/-- First in, first out; the contents are in the order of arrival. -/
def oldestFirst (A : Type*) : Discipline A where
  accepts before x after := after = before ++ [x]
  returns before x after := before = x :: after
  accepts_perm := by
    rintro before x after rfl
    exact List.perm_append_comm
  returns_perm := by
    rintro before x after rfl
    exact .refl _

/-- Last in, first out; the contents are in the order of arrival. -/
def newestFirst (A : Type*) : Discipline A where
  accepts before x after := after = before ++ [x]
  returns before x after := before = after ++ [x]
  accepts_perm := by
    rintro before x after rfl
    exact List.perm_append_comm
  returns_perm := by
    rintro before x after rfl
    exact List.perm_append_comm

/-- A least item first. -/
def leastFirst (A : Type*) [LE A] : Discipline A where
  accepts before x after := after.Perm (x :: before)
  returns before x after := before.Perm (x :: after) ∧ ∀ y ∈ before, x ≤ y
  accepts_perm := by
    intro before x after accepted
    exact accepted
  returns_perm := by
    intro before x after returned
    exact returned.1

namespace Discipline

variable {D : Discipline A} {before after : List A} {x : A}

theorem accepts_length (accepted : D.accepts before x after) :
    after.length = before.length + 1 :=
  (D.accepts_perm _ _ _ accepted).length_eq

theorem returns_length (returned : D.returns before x after) :
    before.length = after.length + 1 :=
  (D.returns_perm _ _ _ returned).length_eq

end Discipline

/-- A collection that keeps to a discipline. -/
structure Storage (D : Discipline A) (B : Type*) where
  empty : B
  contents : B → List A
  put : B → A → B
  get : B → Option (A × B)
  contents_empty : contents empty = []
  put_accepts : ∀ b x, D.accepts (contents b) x (contents (put b x))
  get_returns : ∀ b x b', get b = some (x, b') → D.returns (contents b) x (contents b')
  get_isSome : ∀ b, contents b ≠ [] → (get b).isSome

end MtAsyncio.Lib
