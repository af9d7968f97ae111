import OrbPuzzle.Easing
import OrbPuzzle.Fault
import OrbPuzzle.Tile

/-!
# Transitions

A transition lasts from one tick to a later one, both included. It may move one field of one tile
between two values along an easing curve, and it may hold a command that is due when it ends. A
transition that moves nothing only marks time.
-/

namespace OrbPuzzle

/-- What a transition moves: a field of a tile, between two values, along a curve. -/
structure Motion where
  tile : TileId
  field : Field
  source : Single
  target : Single
  easing : Easing
deriving DecidableEq

/-- The value of a motion when a fraction of its time has passed. Progress is computed in double
precision and rounded to single before the one fused step from source to target. -/
def Motion.valueAt (m : Motion) (fraction : Double) : Single :=
  (m.target - m.source).mulAdd (m.easing.progress fraction).convert m.source

/-- A change that lasts over a span of ticks, followed by a command of type `κ`. -/
structure Transition (κ : Type) where
  start : Nat
  stop : Nat
  motion : Option Motion
  onDone : Option κ
  start_lt_stop : start < stop
deriving DecidableEq

namespace Transition

variable {κ : Type}

/-- A transition from `start` to `stop`; a span that does not end after its start is refused. -/
def make (start stop : Nat) (motion : Option Motion) (onDone : Option κ) :
    Except Fault (Transition κ) :=
  if h : start < stop then .ok ⟨start, stop, motion, onDone, h⟩
  else .error (.emptySpan start stop)

/-- The curve of a transition. One that only marks time counts as linear. -/
def easing (t : Transition κ) : Easing := (t.motion.map (·.easing)).getD default

/-- Whether a tick lies in the span, its two ends included. -/
def IsActiveAt (t : Transition κ) (tick : Nat) : Prop := t.start ≤ tick ∧ tick ≤ t.stop

instance (t : Transition κ) (tick : Nat) : Decidable (t.IsActiveAt tick) :=
  inferInstanceAs (Decidable (_ ∧ _))

/-- The part of the span that has passed at a tick. -/
def elapsed (t : Transition κ) (tick : Nat) : Double :=
  Binary.ofNat (tick - t.start) / Binary.ofNat (t.stop - t.start)

/-- The value a transition gives its field at a tick: none outside its span, and none if it only
marks time. -/
def valueAt (t : Transition κ) (tick : Nat) : Option Single :=
  match t.motion with
  | none => none
  | some m => if t.IsActiveAt tick then some (m.valueAt (t.elapsed tick)) else none

/-- The command that is due at a tick: the one it holds, at its last tick. -/
def dueAt (t : Transition κ) (tick : Nat) : Option κ :=
  if t.stop = tick then t.onDone else none

/-- The transition after a tick has been played: a command that was due has been handed out. -/
def played (t : Transition κ) (tick : Nat) : Transition κ :=
  if t.stop = tick then { t with onDone := none } else t

@[simp]
theorem stop_played (t : Transition κ) (tick : Nat) : (t.played tick).stop = t.stop := by
  unfold played
  split <;> rfl

/-- A command is handed out once. -/
@[simp]
theorem played_played (t : Transition κ) (tick : Nat) :
    (t.played tick).played tick = t.played tick := by
  unfold played
  by_cases h : t.stop = tick <;> simp [h]

end Transition

end OrbPuzzle
