/-
Module: MtAsyncio.Model.Wakes
Purpose: `_wakes.py`: the region of a thread in which wakes are collected, and
  flushed on the way out; the two thread-local fields, and that they are such a
  region.
Trusted boundary: the thread-local fields are touched by their thread only
Main exports: Region, Region.enter, Region.exit, Region.append, Tls, Tls.enter,
  Tls.exit, Tls.append, Tls.region
-/

namespace MtAsyncio.Wakes

/-- `_tls` of one thread.  `depth` and `pending` are set and reset together:
`inside nested pending` is a depth of `nested + 1`. -/
inductive Region (W : Type) where
  | outside
  | inside (nested : Nat) (pending : List W)
deriving DecidableEq

namespace Region

variable {W : Type}

/-- `pending_wakes() is None` -/
def wakesNow : Region W → Bool
  | outside => true
  | inside _ _ => false

/-- What the region has collected. -/
def pending : Region W → List W
  | outside => []
  | inside _ wakes => wakes

/-- `pending.append`; nothing is appended outside of a region. -/
def append (wake : W) : Region W → Region W
  | outside => outside
  | inside nested wakes => inside nested (wakes ++ [wake])

/-- `__enter__` -/
def enter : Region W → Region W
  | outside => inside 0 []
  | inside nested wakes => inside (nested + 1) wakes

/-- `__exit__`: only the outermost one has something to flush, and it resets
`pending` before it does.  `none` where there is no region to exit. -/
def exit : Region W → Option (Region W × List W)
  | outside => none
  | inside 0 wakes => some (outside, wakes)
  | inside (nested + 1) wakes => some (inside nested wakes, [])

@[simp]
theorem pending_enter (r : Region W) : r.enter.pending = r.pending := by
  cases r <;> rfl

/-- Nothing that was collected gets lost on the way out. -/
theorem pending_exit {r r' : Region W} {flush : List W} (left : r.exit = some (r', flush)) :
    flush ++ r'.pending = r.pending := by
  cases r with
  | outside => cases left
  | inside nested wakes =>
      cases nested with
      | zero =>
          cases left
          exact List.append_nil _
      | succ nested =>
          cases left
          rfl

/-- Only a thread inside of a region exits one. -/
theorem inside_of_exit {r r' : Region W} {flush : List W} (left : r.exit = some (r', flush)) :
    r.wakesNow = false := by
  cases r with
  | outside => cases left
  | inside nested wakes => rfl

/-- Only the outermost exit has something to flush. -/
theorem outside_of_flush {r r' : Region W} {wake : W} {rest : List W}
    (left : r.exit = some (r', wake :: rest)) : r'.wakesNow = true := by
  cases r with
  | outside => cases left
  | inside nested wakes =>
      cases nested with
      | zero =>
          cases left
          rfl
      | succ nested => cases left

@[simp]
theorem wakesNow_append (r : Region W) (wake : W) : (r.append wake).wakesNow = r.wakesNow := by
  cases r <;> rfl

theorem pending_append {r : Region W} (region : r.wakesNow = false) (wake : W) :
    (r.append wake).pending = r.pending ++ [wake] := by
  cases r with
  | outside => cases region
  | inside nested wakes => rfl

end Region

/-! ## The two fields -/

/-- `_tls` field by field; an attribute that was never set reads as its default. -/
structure Tls (W : Type) where
  depth : Nat := 0
  pending : Option (List W) := none
deriving DecidableEq

namespace Tls

variable {W : Type} {tls tls' : Tls W} {flush : Option (List W)}

/-- `pending_wakes` -/
def pendingWakes (tls : Tls W) : Option (List W) :=
  tls.pending

/-- `pending.append` on the list that `pending_wakes` has returned -/
def append (wake : W) (tls : Tls W) : Tls W :=
  { tls with pending := tls.pending.map (· ++ [wake]) }

/-- `__enter__` -/
def enter (tls : Tls W) : Tls W where
  depth := tls.depth + 1
  pending := if tls.depth = 0 then some [] else tls.pending

/-- `__exit__` up to its loop, with the wakes that the loop runs; an exit that
is not the outermost one returns before.  `none` where there is no region to
exit, or where the loop would be over `None`. -/
def exit (tls : Tls W) : Option (Tls W × Option (List W)) :=
  match tls.depth with
  | 0 => none
  | depth + 1 =>
      if depth ≠ 0 then some ({ tls with depth := depth }, none)
      else tls.pending.map fun pending => ({ depth := 0, pending := none }, some pending)

/-- The fields are set and reset together. -/
def Sound (tls : Tls W) : Prop :=
  tls.pending.isSome = true ↔ 0 < tls.depth

/-- The region that the fields are. -/
def region (tls : Tls W) : Region W :=
  match tls.depth with
  | 0 => .outside
  | nested + 1 => .inside nested (tls.pending.getD [])

theorem sound_default : Sound ({} : Tls W) := by
  simp [Sound]

theorem eq_default (outside : tls.depth = 0) (none_ : tls.pending = none) : tls = {} := by
  obtain ⟨depth, pending⟩ := tls
  subst outside none_
  rfl

theorem Sound.enter (sound : tls.Sound) : tls.enter.Sound := by
  unfold Sound Tls.enter at *
  split
  · simp
  · rename_i nested
    exact ⟨fun _ => Nat.succ_pos _, fun _ => sound.mpr (Nat.pos_of_ne_zero nested)⟩

theorem Sound.append (sound : tls.Sound) (wake : W) : (tls.append wake).Sound := by
  unfold Sound Tls.append at *
  simpa using sound

theorem exit_inner (left : tls.exit = some (tls', none)) :
    ∃ nested, tls.depth = nested + 2 ∧ tls' = { tls with depth := nested + 1 } := by
  unfold Tls.exit at left
  split at left
  · cases left
  · rename_i depth isDepth
    split at left
    · rename_i nested
      cases left
      obtain ⟨inner, rfl⟩ := Nat.exists_eq_succ_of_ne_zero nested
      exact ⟨inner, isDepth, rfl⟩
    · obtain ⟨pending, -, same⟩ := Option.map_eq_some_iff.mp left
      cases same

/-- The outermost exit: the thread defers no more before the first wake runs. -/
theorem exit_outermost {pending : List W} (left : tls.exit = some (tls', some pending)) :
    tls.depth = 1 ∧ tls.pending = some pending ∧ tls' = {} := by
  unfold Tls.exit at left
  split at left
  · cases left
  · rename_i depth isDepth
    split at left
    · cases left
    · rename_i outermost
      obtain ⟨collected, isPending, same⟩ := Option.map_eq_some_iff.mp left
      cases same
      exact ⟨by omega, isPending, rfl⟩

theorem Sound.exit (sound : tls.Sound) (left : tls.exit = some (tls', flush)) : tls'.Sound := by
  cases flush with
  | none =>
      obtain ⟨nested, isDepth, rfl⟩ := exit_inner left
      exact ⟨fun _ => Nat.succ_pos _, fun _ => sound.mpr (by omega)⟩
  | some pending =>
      obtain ⟨-, -, rfl⟩ := exit_outermost left
      exact sound_default

/-- An exit does not fail inside of a region. -/
theorem Sound.exits (sound : tls.Sound) (inside : 0 < tls.depth) :
    ∃ left, tls.exit = some left := by
  obtain ⟨pending, isPending⟩ := Option.isSome_iff_exists.mp (sound.mpr inside)
  unfold Tls.exit
  split
  · omega
  · split
    · exact ⟨_, rfl⟩
    · exact ⟨_, by rw [isPending]; rfl⟩

/-- A completion asks whether the region is one. -/
theorem Sound.wakesNow (sound : tls.Sound) :
    tls.region.wakesNow = true ↔ tls.pendingWakes = none := by
  have none_iff : tls.pendingWakes = none ↔ ¬tls.pending.isSome = true := by
    simp [pendingWakes]
  rw [none_iff, show tls.pending.isSome = true ↔ 0 < tls.depth from sound]
  unfold region
  cases depth : tls.depth <;> simp [Region.wakesNow]

theorem region_enter : tls.enter.region = tls.region.enter := by
  unfold region Tls.enter
  cases depth : tls.depth <;> simp [Region.enter]

theorem region_append (sound : tls.Sound) (wake : W) :
    (tls.append wake).region = tls.region.append wake := by
  unfold region Tls.append
  cases depth : tls.depth with
  | zero => rfl
  | succ nested =>
      obtain ⟨pending, isPending⟩ := Option.isSome_iff_exists.mp (sound.mpr (by omega))
      simp [Region.append, isPending]

theorem region_exit (left : tls.exit = some (tls', flush)) :
    tls.region.exit = some (tls'.region, flush.getD []) := by
  cases flush with
  | none =>
      obtain ⟨nested, isDepth, rfl⟩ := exit_inner left
      simp [region, isDepth, Region.exit]
  | some pending =>
      obtain ⟨isDepth, isPending, rfl⟩ := exit_outermost left
      simp [region, isDepth, isPending, Region.exit]

end Tls

end MtAsyncio.Wakes
