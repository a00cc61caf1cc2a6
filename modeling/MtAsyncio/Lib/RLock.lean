/-
Module: MtAsyncio.Lib.RLock
Purpose: Reentrant locks.  A lock is free or held by one thread, and counts how
  often that thread has taken it; `count` is what one thread holds of it.
Trusted boundary: none
Main exports: RLock, RLock.acquire, RLock.release, RLock.count,
  RLock.one_holder, RLock.count_acquire, RLock.count_release
-/
import Mathlib.Tactic.ByContra
import Mathlib.Tactic.TypeStar

namespace MtAsyncio.Lib

/-- A reentrant lock; a held one has been taken `again` times after the first. -/
inductive RLock (T : Type*) where
  | free
  | held (owner : T) (again : Nat)
deriving DecidableEq

namespace RLock

variable {T : Type*} [DecidableEq T] {l l' : RLock T} {t u : T}

/-- Another thread's lock cannot be taken. -/
def acquire (t : T) : RLock T → Option (RLock T)
  | free => some (held t 0)
  | held owner again => if owner = t then some (held t (again + 1)) else none

def release (t : T) : RLock T → Option (RLock T)
  | free => none
  | held owner 0 => if owner = t then some free else none
  | held owner (again + 1) => if owner = t then some (held t again) else none

/-- How often a thread holds the lock. -/
def count (t : T) : RLock T → Nat
  | free => 0
  | held owner again => if owner = t then again + 1 else 0

theorem one_holder (mine : l.count t ≠ 0) (yours : l.count u ≠ 0) : t = u := by
  cases l with
  | free => exact absurd rfl mine
  | held owner again =>
      have isT : owner = t := by
        by_contra other
        exact mine (if_neg other)
      have isU : owner = u := by
        by_contra other
        exact yours (if_neg other)
      exact isT.symm.trans isU

theorem count_acquire (taken : l.acquire t = some l') (u : T) :
    l'.count u = if u = t then l.count u + 1 else l.count u := by
  cases l with
  | free =>
      cases taken
      simp only [count, eq_comm]
  | held owner again =>
      simp only [acquire] at taken
      split at taken
      · rename_i isOwner
        subst isOwner
        cases taken
        simp only [count, eq_comm]
        split <;> rfl
      · cases taken

theorem count_release (given : l.release t = some l') (u : T) :
    l.count u = if u = t then l'.count u + 1 else l'.count u := by
  cases l with
  | free => cases given
  | held owner again =>
      cases again with
      | zero =>
          simp only [release] at given
          split at given
          · rename_i isOwner
            subst isOwner
            cases given
            simp only [count, eq_comm]
          · cases given
      | succ again =>
          simp only [release] at given
          split at given
          · rename_i isOwner
            subst isOwner
            cases given
            simp only [count, eq_comm]
            split <;> rfl
          · cases given

end RLock

end MtAsyncio.Lib
