/-
Module: MtAsyncio.Lib.Family
Purpose: Instances of one machine side by side.  A step of one of them is heard
  by the others, who answer with a step of their own, so that every instance by
  itself goes through a run of the machine.
Trusted boundary: none
Main exports: Machine.hears, Machine.stepAt, Machine.stepAll, stepAt_reachable,
  stepAll_reachable
-/
import Mathlib.Logic.Function.Basic
import MtAsyncio.Lib.Machine

namespace MtAsyncio.Lib.Machine

variable {N σ α : Type*} [DecidableEq N] {M : Machine σ α} {echo : σ → σ → Option α}
variable {f f' : N → σ} {n m : N} {s : σ} {a : α}

/-- The step that an instance takes when it hears of `a`, if it can. -/
def hears (M : Machine σ α) (s : σ) (a : Option α) : σ :=
  (a.bind (M.step s)).getD s

/-- Instance `n` takes a step, and `echo` tells what the others hear of it. -/
def stepAt (M : Machine σ α) (echo : σ → σ → Option α) (f : N → σ) (n : N) (a : α) :
    Option (N → σ) :=
  (M.step (f n) a).map fun next =>
    Function.update (fun m => M.hears (f m) (echo (f n) next)) n next

/-- All of them hear of the same step. -/
def stepAll (M : Machine σ α) (f : N → σ) (a : α) (m : N) : σ :=
  M.hears (f m) (some a)

theorem hears_reachable (reached : M.Reachable s) (a : Option α) : M.Reachable (M.hears s a) := by
  cases a with
  | none => exact reached
  | some a =>
      show M.Reachable ((M.step s a).getD s)
      cases taken : M.step s a with
      | none => exact reached
      | some next => exact reached.next taken

omit [DecidableEq N] in
theorem stepAll_reachable (reached : ∀ m, M.Reachable (f m)) (m : N) :
    M.Reachable (M.stepAll f a m) :=
  hears_reachable (reached m) (some a)

/-- Every instance of a family stays in the reach of its own machine. -/
theorem stepAt_reachable (reached : ∀ m, M.Reachable (f m))
    (taken : M.stepAt echo f n a = some f') (m : N) : M.Reachable (f' m) := by
  obtain ⟨next, moved, rfl⟩ := Option.map_eq_some_iff.mp taken
  by_cases self : m = n
  · subst self
    rw [Function.update_self]
    exact .step (reached m) trivial moved
  · rw [Function.update_of_ne self]
    exact hears_reachable (reached m) _

end MtAsyncio.Lib.Machine
