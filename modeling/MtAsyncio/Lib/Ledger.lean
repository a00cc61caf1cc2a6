/-
Module: MtAsyncio.Lib.Ledger
Purpose: Ledgers over a finite family of threads.  A shared counter is the sum
  of what each thread contributes to it; an atomic step changes the
  contribution of the threads it touches and leaves the other entries alone.
Trusted boundary: none
Main exports: sum_eq_off, sum_exchange, exists_pos_of_sum_pos
-/
import Mathlib.Algebra.BigOperators.Group.Finset.Basic
import Mathlib.Algebra.Order.BigOperators.Group.Finset

namespace MtAsyncio.Lib

open scoped BigOperators

variable {ι : Type*} [Fintype ι] [DecidableEq ι]

/-- Two ledgers that differ in one entry only have totals that differ by that
entry. -/
theorem sum_eq_off {A : Type*} [AddCommMonoid A] (before after : ι → A) (i : ι)
    (same : ∀ j, j ≠ i → after j = before j) :
    ∑ j, after j + before i = ∑ j, before j + after i := by
  rw [← Finset.add_sum_erase Finset.univ after (Finset.mem_univ i),
    ← Finset.add_sum_erase Finset.univ before (Finset.mem_univ i)]
  have rest : ∑ j ∈ Finset.univ.erase i, after j = ∑ j ∈ Finset.univ.erase i, before j :=
    Finset.sum_congr rfl fun j member => same j (Finset.ne_of_mem_erase member)
  rw [rest, add_comm (after i), add_comm (before i), add_right_comm]

/-- One thread exchanges part of its entry with what is kept beside the ledger. -/
theorem sum_exchange {A : Type*} [AddCancelCommMonoid A] (before after : ι → A) (i : ι)
    (same : ∀ j, j ≠ i → after j = before j) {beside beside' : A}
    (exchanged : beside' + after i = beside + before i) :
    beside' + ∑ j, after j = beside + ∑ j, before j := by
  have total := sum_eq_off before after i same
  refine add_right_cancel (b := before i) ?_
  calc beside' + ∑ j, after j + before i
      = beside' + after i + ∑ j, before j := by
        rw [add_assoc, total, add_assoc, add_comm (after i)]
    _ = beside + ∑ j, before j + before i := by
        rw [exchanged, add_right_comm]

omit [DecidableEq ι] in
/-- An entry is bounded by the total of its ledger. -/
theorem entry_le_sum (ledger : ι → Nat) (i : ι) : ledger i ≤ ∑ j, ledger j :=
  Finset.single_le_sum (f := ledger) (fun _ _ => Nat.zero_le _) (Finset.mem_univ i)

omit [DecidableEq ι] in
/-- A positive total has a positive entry. -/
theorem exists_pos_of_sum_pos {ledger : ι → Nat} (positive : 0 < ∑ j, ledger j) :
    ∃ j, 0 < ledger j := by
  by_contra none
  have zero : ∑ j, ledger j = 0 :=
    Finset.sum_eq_zero fun j _ => by
      have atMost : ¬ 0 < ledger j := fun entry => none ⟨j, entry⟩
      omega
  omega

end MtAsyncio.Lib
