/-
Module: MtAsyncio.Proofs.TokenAccounting
Purpose: What `speculation` counts.  The ledger of `MtAsyncio.Proofs.WorkTokens`
  read as three numbers of threads, so that no `fetch_sub` on the counter
  underflows and a schedule at rest has no token out.
Trusted boundary: none
Main exports: tokenHolders, openClaims, speculators, speculation_counts_tokens,
  observed_claim_is_uncounted
-/
import Mathlib.Algebra.BigOperators.Group.Finset.Basic
import Mathlib.Data.Fintype.BigOperators
import MtAsyncio.Proofs.WorkStranded

namespace MtAsyncio.WorkSchedule

open scoped BigOperators
open Lib (Machine)

variable {n m : Nat} {H : Type}

/-! ## The three numbers -/

/-- The thread took a token and has neither passed it to a worker nor given it
back. -/
def HoldsToken (s : State n m H) (t : Fin n ⊕ Fin m) : Prop :=
  (∃ i, s.call t = some (.tryFlag i)) ∨ s.call t = some .giveBack

/-- A producer lowered the idle flag of worker `i`, and the worker has not
looked at it since. -/
def Unobserved (s : State n m H) (i : Fin n) : Prop :=
  (s.worker i).pc.advertised = true ∧ s.shared.idleFlag i = false

/-- The worker has found its flag lowered and has not yet given the token back
or set `is_speculating`. -/
def Observing (s : State n m H) (i : Fin n) : Prop :=
  (s.worker i).pc.observed = true

instance (s : State n m H) (t : Fin n ⊕ Fin m) : Decidable (HoldsToken s t) :=
  inferInstanceAs (Decidable (_ ∨ _))

instance (s : State n m H) (i : Fin n) : Decidable (Unobserved s i) :=
  inferInstanceAs (Decidable (_ ∧ _))

instance (s : State n m H) (i : Fin n) : Decidable (Observing s i) :=
  inferInstanceAs (Decidable (_ = _))

def tokenHolders (s : State n m H) : Nat :=
  (Finset.univ.filter (HoldsToken s)).card

def unobservedClaims (s : State n m H) : Nat :=
  (Finset.univ.filter (Unobserved s)).card

/-- The claims that a worker has not acted on. -/
def openClaims (s : State n m H) : Nat :=
  (Finset.univ.filter fun i => Unobserved s i ∨ Observing s i).card

def speculators (s : State n m H) : Nat :=
  (Finset.univ.filter fun i => (s.worker i).isSpeculating = true).card

/-- The step is a `fetch_sub` on `speculation`. -/
def SubtractsToken (s : State n m H) : Act n m H → Prop
  | .worker i => (∃ h, (s.worker i).pc = .dropToken h) ∨ (∃ h, (s.worker i).pc = .absorb h) ∨
      (s.worker i).pc = .giveUp ∨ (s.worker i).pc = .exitToken ∨
      (s.worker i).pc.unparking = some .giveBack
  | .producer p => s.producer p = some .giveBack
  | _ => False

/-! ## The ledger as numbers of threads -/

theorem card_filter_toNat {ι : Type} [Fintype ι] (p : ι → Prop) [DecidablePred p] (b : ι → Bool)
    (same : ∀ i, p i ↔ b i = true) : (Finset.univ.filter p).card = ∑ i, (b i).toNat := by
  rw [Finset.card_filter]
  refine Finset.sum_congr rfl fun i _ => ?_
  cases holds : b i with
  | true => simp [(same i).mpr holds]
  | false =>
      have fails : ¬p i := fun has => by simp [(same i).mp has] at holds
      simp [fails]

/-- A thread's part of the ledger that is a token in its hands. -/
theorem unparkTokens_eq (u : Option (Unparking n)) :
    unparkTokens u = if (∃ i, u = some (.tryFlag i)) ∨ u = some .giveBack then 1 else 0 := by
  cases u with
  | none => simp
  | some u => cases u <;> simp

theorem tokenHolders_eq (s : State n m H) :
    tokenHolders s = ∑ i, unparkTokens (s.worker i).pc.unparking +
      ∑ p, unparkTokens (s.producer p) := by
  rw [tokenHolders, Finset.card_filter, Fintype.sum_sum_type]
  congr 1
  · exact Finset.sum_congr rfl fun i _ => (unparkTokens_eq _).symm
  · exact Finset.sum_congr rfl fun p _ => (unparkTokens_eq _).symm

theorem openClaims_eq (s : State n m H) :
    openClaims s = ∑ i, (((s.worker i).pc.advertised && !s.shared.idleFlag i).toNat +
      (s.worker i).pc.observed.toNat) := by
  have counted : ∀ i, Unobserved s i ∨ Observing s i ↔
      ((s.worker i).pc.advertised && !s.shared.idleFlag i || (s.worker i).pc.observed) = true := by
    intro i
    rw [Bool.or_eq_true, Bool.and_eq_true, Bool.not_eq_true']
    exact Iff.rfl
  rw [openClaims, card_filter_toNat _ _ counted]
  refine Finset.sum_congr rfl fun i _ => ?_
  have apart : (s.worker i).pc.observed = true → (s.worker i).pc.advertised = false := by
    cases (s.worker i).pc with
    | unparkedStopping claimed => cases claimed <;> simp
    | _ => simp
  generalize (s.worker i).pc.observed = observed at apart ⊢
  generalize (s.worker i).pc.advertised = advertised at apart ⊢
  revert apart
  cases observed <;> cases advertised <;> cases s.shared.idleFlag i <;> decide

theorem speculators_eq (s : State n m H) :
    speculators s = ∑ i, (s.worker i).isSpeculating.toNat :=
  card_filter_toNat _ _ fun _ => Iff.rfl

theorem Balanced.counts {s : State n m H} (balanced : Balanced s) :
    s.shared.speculation = tokenHolders s + openClaims s + speculators s := by
  rw [balanced.speculation, tokenHolders_eq, openClaims_eq, speculators_eq]
  simp only [Worker.tokens, Finset.sum_add_distrib]
  omega

/-- A thread about to subtract has a token charged to it. -/
theorem Balanced.positive {s : State n m H} (balanced : Balanced s) {a : Act n m H}
    (subtracts : SubtractsToken s a) : 0 < s.shared.speculation := by
  cases a with
  | worker i =>
      refine Nat.lt_of_lt_of_le ?_ (balanced.worker_charged i)
      rcases subtracts with ⟨h, at_⟩ | ⟨h, at_⟩ | at_ | at_ | at_
      · have on := (balanced.consistent i).on (by rw [at_]; rfl)
        simp [Worker.tokens, on]
      · simp [Worker.tokens, at_]
      · have on := (balanced.consistent i).on (by rw [at_]; rfl)
        simp [Worker.tokens, on]
      · have on := (balanced.consistent i).on (by rw [at_]; rfl)
        simp [Worker.tokens, on]
      · have token : unparkTokens (s.worker i).pc.unparking = 1 := by rw [at_]; rfl
        rw [Worker.tokens, token]
        omega
  | producer p =>
      refine Nat.lt_of_lt_of_le ?_ (balanced.producer_charged p)
      have at_ : s.producer p = some .giveBack := subtracts
      simp [at_]
  | _ => exact subtracts.elim

/-- Every worker is parked with its idle flag still set. -/
def AllIdle (s : State n m H) : Prop :=
  ∀ i, (s.worker i).pc = .park ∧ s.shared.idleFlag i = true

instance [DecidableEq H] (s : State n m H) : Decidable (AllIdle s) :=
  inferInstanceAs (Decidable (∀ _, _ ∧ _))

theorem Balanced.at_rest {s : State n m H} (balanced : Balanced s) (idle : AllIdle s)
    (quiet : NoPush s) :
    s.shared.speculation = 0 ∧ s.shared.idleCount = BitVec.ofNat 64 n := by
  have noTokens : ∀ i, (s.worker i).tokens (s.shared.idleFlag i) = 0 := by
    intro i
    have off := (balanced.consistent i).off (by rw [(idle i).1]; rfl)
    simp [Worker.tokens, off, idle i]
  have oneIdle : ∀ i, (s.worker i).idle (s.shared.idleFlag i) = 1 := by
    intro i
    simp [Worker.idle, idle i]
  rw [balanced.speculation, balanced.idleCount]
  constructor
  · simp [noTokens, quiet _]
  · simp [oneIdle, quiet _]

/-! ## The count -/

/-- Before the stop `speculation` is the number of threads with a token in
their hands, of claims that no worker has acted on yet and of speculating
workers; a `fetch_sub` finds it positive; and a schedule at rest has no token
out and counts every worker as idle. -/
theorem speculation_counts_tokens {s : State n m H} (reached : (machine n m H).Reachable s)
    (running : s.shared.workStopping = false) :
    s.shared.speculation = tokenHolders s + openClaims s + speculators s ∧
    (∀ a, SubtractsToken s a → 0 < s.shared.speculation) ∧
    (AllIdle s → NoPush s →
      s.shared.speculation = 0 ∧ s.shared.idleCount = BitVec.ofNat 64 n) := by
  have balanced := balanced_of_reach reached running
  exact ⟨balanced.counts, fun a => balanced.positive, balanced.at_rest⟩

/-- The worker is parked and claimed by a producer, and wakes up. -/
def claimedRun : List (Act 1 1 Nat) :=
  List.flatten
    [.replicate 12 (.worker (.last 0)),
      .producerPush (.last 0) .deferHandle 1 :: .replicate 5 (.producer (.last 0)),
      .replicate 2 (.worker (.last 0))]

theorem claimedRun_ends :
    ((machine 1 1 Nat).exec (idleStart 1 1 Nat) claimedRun).any (fun s =>
      s.shared.workStopping = false ∧ s.shared.speculation = 1 ∧ openClaims s = 1 ∧
        s.shared.speculation ≠ tokenHolders s + unobservedClaims s + speculators s) = true := by
  decide +kernel

theorem speculation_counts_tokens_of_claim :
    ∃ s : State 1 1 Nat, openClaims s = 1 ∧
      s.shared.speculation = tokenHolders s + openClaims s + speculators s := by
  obtain ⟨s, reached, ends⟩ := Machine.Reachable.exists_of_exec idleStart_start claimedRun_ends
  obtain ⟨running, -, one, -⟩ := of_decide_eq_true ends
  exact ⟨s, one, (speculation_counts_tokens reached running).1⟩

/-- `clear_idle` has told the worker that it was claimed; `is_speculating` does
not say so yet. -/
theorem observed_claim_is_uncounted :
    ¬ ∀ s : State 1 1 Nat, (machine 1 1 Nat).Reachable s → s.shared.workStopping = false →
      s.shared.speculation = tokenHolders s + unobservedClaims s + speculators s := by
  intro always
  obtain ⟨s, reached, ends⟩ := Machine.Reachable.exists_of_exec idleStart_start claimedRun_ends
  obtain ⟨running, -, -, off⟩ := of_decide_eq_true ends
  exact off (always s reached running)

end MtAsyncio.WorkSchedule
