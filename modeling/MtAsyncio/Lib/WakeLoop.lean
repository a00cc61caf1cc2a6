/-
Module: MtAsyncio.Lib.WakeLoop
Purpose: A thread wakes a list of waiters up: it looks at each and settles it in a later
  step, unless it has been settled already; one that is settled in between makes it fail.
  Nobody is forgotten as long as that does not happen: whoever has not been settled waits
  at a gate that is shut, or is still ahead.
Trusted boundary: none
Main exports: WakeLoop, WakeLoop.ahead, Turn, WakeLoop.turn, settled_update, Spares,
  spares_sound, Attended, Tended, Tended.mono, Tended.begins, Tended.goes, Tended.settles,
  Tended.not_fails, Tended.finished, Tended.settle
-/
import Mathlib.Logic.Function.Basic
import Mathlib.Tactic.TypeStar

namespace MtAsyncio.Lib

/-- Where the loop is: it looks at the next waiter, or settles one that it has found
unsettled. -/
inductive WakeLoop (W : Type*) where
  | looking (rest : List W)
  | settling (w : W) (rest : List W)
deriving DecidableEq

/-- What one step of the loop makes of it. -/
inductive Turn (W : Type*) where
  | goes (loop : WakeLoop W)
  | settles (w : W) (loop : WakeLoop W)
  | fails
  | finished

variable {W : Type*}

namespace WakeLoop

/-- The waiters that the loop has still to settle. -/
def ahead : WakeLoop W → List W
  | looking rest => rest
  | settling w rest => w :: rest

/-- The waiter that has been found unsettled. -/
def chosen : WakeLoop W → Option W
  | looking _ => none
  | settling w _ => some w

def turn (settled : W → Bool) : WakeLoop W → Turn W
  | looking [] => .finished
  | looking (w :: rest) => .goes (if settled w then looking rest else settling w rest)
  | settling w rest => if settled w then .fails else .settles w (looking rest)

variable {settled : W → Bool} {loop loop' : WakeLoop W} {w : W}

/-- The loop chooses none that has been settled. -/
theorem chosen_goes (goes : loop.turn settled = .goes loop') (chosen : loop'.chosen = some w) :
    settled w = false := by
  unfold turn at goes
  split at goes
  · cases goes
  · rename_i v rest
    cases goes
    cases known : settled v with
    | true =>
        rw [known] at chosen
        cases chosen
    | false =>
        rw [known] at chosen
        cases chosen
        exact known
  · split at goes <;> cases goes

theorem not_chosen_settles (settles : loop.turn settled = .settles w loop') :
    loop'.chosen = none := by
  unfold turn at settles
  split at settles
  · cases settles
  · cases settles
  · split at settles <;> cases settles
    rfl

/-- It fails at one that was settled behind its back. -/
theorem chosen_fails (fails : loop.turn settled = .fails) :
    ∃ w, loop.chosen = some w ∧ settled w = true := by
  unfold turn at fails
  split at fails
  · cases fails
  · cases fails
  · rename_i w rest
    split at fails
    · rename_i known
      exact ⟨w, rfl, known⟩
    · cases fails

/-- The waiters that a loop has still to settle, where one is running. -/
def aheadOf : Option (WakeLoop W) → List W
  | some loop => loop.ahead
  | none => []

/-- The waiter that it has found unsettled. -/
def chosenOf : Option (WakeLoop W) → Option W
  | some loop => loop.chosen
  | none => none

theorem exists_of_mem_aheadOf {running : Option (WakeLoop W)} (member : w ∈ aheadOf running) :
    ∃ loop, running = some loop ∧ w ∈ loop.ahead := by
  cases running with
  | none => cases member
  | some loop => exact ⟨loop, rfl, member⟩

/-- One waiter more is settled. -/
theorem settled_update [DecidableEq W] {V : Type*} (done : V → Bool) (waiter : W → V) (w : W)
    {outcome : V} (settles : done outcome = true) :
    (fun v => done (Function.update waiter w outcome v)) =
      Function.update (fun v => done (waiter v)) w true := by
  rw [← settles]
  exact Function.comp_update done waiter w outcome

/-! ## Settled from outside -/

section Spares

variable {σ α : Type*} {running : σ → Option (WakeLoop W)} {settles : α → Option W} {s : σ} {a : α}

/-- A step that settles a waiter from outside does not get between the look at it and its
turn. -/
def Spares (running : σ → Option (WakeLoop W)) (settles : α → Option W) (s : σ) (a : α) : Prop :=
  ∀ w, settles a = some w → chosenOf (running s) ≠ some w

/-- The check of `Spares`. -/
def spares [DecidableEq W] (running : σ → Option (WakeLoop W)) (settles : α → Option W) (s : σ)
    (a : α) : Bool :=
  match settles a with
  | some w => chosenOf (running s) != some w
  | none => true

theorem spares_sound [DecidableEq W] (s : σ) (a : α) (allowed : spares running settles s a = true) :
    Spares running settles s a := by
  intro w cancels
  unfold spares at allowed
  rw [cancels] at allowed
  exact bne_iff_ne.mp allowed

end Spares

end WakeLoop

/-- Who is parked and not settled waits at a shut gate, or is ahead. -/
def Attended (parked shut : W → Prop) (settled : W → Bool) (ahead : List W) : Prop :=
  ∀ w, parked w → settled w = false → shut w ∨ w ∈ ahead

namespace Attended

variable {parked shut parked' shut' : W → Prop} {settled : W → Bool} {ahead : List W}
  {loop loop' : WakeLoop W} {w : W}

/-- Fewer are parked, and the gates that were shut are. -/
theorem mono (attended : Attended parked shut settled ahead)
    (fewer : ∀ w, parked' w → settled w = false → parked w ∨ shut' w)
    (still : ∀ w, shut w → shut' w) : Attended parked' shut' settled ahead := by
  intro w isParked unsettled
  rcases fewer w isParked unsettled with was | isShut
  · exact (attended w was unsettled).imp_left (still w)
  · exact .inl isShut

/-- Somebody else settles a waiter. -/
theorem settle [DecidableEq W] (attended : Attended parked shut settled ahead) (w : W) :
    Attended parked shut (Function.update settled w true) ahead := by
  intro v isParked unsettled
  refine attended v isParked ?_
  by_cases same : v = w
  · rw [same, Function.update_self] at unsettled
    cases unsettled
  · rwa [Function.update_of_ne same] at unsettled

/-- The gates open, and the loop begins with those that wait at them. -/
theorem begins {rest : List W} (attended : Attended parked shut settled [])
    (all : ∀ w, parked w → shut w → w ∈ rest) :
    Attended parked shut' settled (WakeLoop.looking rest).ahead := by
  intro w isParked unsettled
  refine .inr (all w isParked ?_)
  exact (attended w isParked unsettled).resolve_right List.not_mem_nil

theorem goes (attended : Attended parked shut settled loop.ahead)
    (goes : loop.turn settled = .goes loop') : Attended parked shut settled loop'.ahead := by
  intro w isParked unsettled
  refine (attended w isParked unsettled).imp_right ?_
  intro member
  unfold WakeLoop.turn at goes
  split at goes
  · cases goes
  · rename_i v rest
    cases goes
    cases known : settled v with
    | true =>
        rcases List.mem_cons.mp member with same | later
        · rw [same, known] at unsettled
          cases unsettled
        · exact later
    | false => exact member
  · split at goes <;> cases goes

theorem settles [DecidableEq W] (attended : Attended parked shut settled loop.ahead)
    (settles : loop.turn settled = .settles w loop') :
    Attended parked shut (Function.update settled w true) loop'.ahead := by
  intro v isParked unsettled
  have other : v ≠ w := by
    intro same
    rw [same, Function.update_self] at unsettled
    cases unsettled
  rw [Function.update_of_ne other] at unsettled
  refine (attended v isParked unsettled).imp_right ?_
  intro member
  unfold WakeLoop.turn at settles
  split at settles
  · cases settles
  · cases settles
  · split at settles <;> cases settles
    exact (List.mem_cons.mp member).resolve_left other

/-- Behind the loop only those wait whose gate is shut. -/
theorem finished (attended : Attended parked shut settled loop.ahead)
    (finished : loop.turn settled = .finished) : Attended parked shut settled [] := by
  unfold WakeLoop.turn at finished
  split at finished
  · exact attended
  · cases finished
  · split at finished <;> cases finished

end Attended

/-- Nobody is forgotten, and the loop has not been overtaken. -/
structure Tended (parked shut : W → Prop) (settled : W → Bool) (running : Option (WakeLoop W)) :
    Prop where
  attended : Attended parked shut settled (WakeLoop.aheadOf running)
  chosen : ∀ w, WakeLoop.chosenOf running = some w → settled w = false

namespace Tended

variable {parked shut parked' shut' : W → Prop} {settled : W → Bool}
  {running : Option (WakeLoop W)} {loop loop' : WakeLoop W} {w : W}

theorem mono (tended : Tended parked shut settled running)
    (fewer : ∀ w, parked' w → settled w = false → parked w ∨ shut' w)
    (still : ∀ w, shut w → shut' w) : Tended parked' shut' settled running :=
  ⟨tended.attended.mono fewer still, tended.chosen⟩

theorem begins {rest : List W} (tended : Tended parked shut settled none)
    (all : ∀ w, parked w → shut w → w ∈ rest) :
    Tended parked shut' settled (some (.looking rest)) :=
  ⟨tended.attended.begins all, fun _ no => nomatch no⟩

theorem goes (tended : Tended parked shut settled (some loop))
    (goes : loop.turn settled = .goes loop') : Tended parked shut settled (some loop') :=
  ⟨tended.attended.goes goes, fun _ chosen => WakeLoop.chosen_goes goes chosen⟩

theorem settles [DecidableEq W] (tended : Tended parked shut settled (some loop))
    (settles : loop.turn settled = .settles w loop') :
    Tended parked shut (Function.update settled w true) (some loop') := by
  refine ⟨tended.attended.settles settles, ?_⟩
  intro v chosen
  have chosen : loop'.chosen = some v := chosen
  rw [WakeLoop.not_chosen_settles settles] at chosen
  cases chosen

/-- Whom the loop has found unsettled is so at its turn. -/
theorem not_fails (tended : Tended parked shut settled (some loop)) :
    loop.turn settled ≠ .fails := by
  intro fails
  obtain ⟨w, chosen, known⟩ := WakeLoop.chosen_fails fails
  rw [tended.chosen w chosen] at known
  cases known

theorem finished (tended : Tended parked shut settled (some loop))
    (finished : loop.turn settled = .finished) : Tended parked shut settled none :=
  ⟨tended.attended.finished finished, fun _ no => nomatch no⟩

/-- Somebody else settles a waiter, and spares the one that has been found unsettled. -/
theorem settle [DecidableEq W] (tended : Tended parked shut settled running)
    (spared : WakeLoop.chosenOf running ≠ some w) :
    Tended parked shut (Function.update settled w true) running := by
  refine ⟨tended.attended.settle w, ?_⟩
  intro v chosen
  have other : v ≠ w := by
    rintro rfl
    exact spared chosen
  rw [Function.update_of_ne other]
  exact tended.chosen v chosen

end Tended

end MtAsyncio.Lib
