import OrbPuzzle.Bands

/-!
# The rules of a game

The numbers a game is set up with: the size of its board, the pace of its animations and the look of
a clearing line.
-/

namespace OrbPuzzle

/-- The settings of a game. -/
structure Rules where
  /-- Orbs per row and per column. -/
  gridSize : Nat := 5
  /-- The length in ticks of each phase of an animation. -/
  phaseTicks : Nat := 15
  /-- The pace of the clock. -/
  ticksPerSecond : Double := .ofNat 30
  /-- The scale to which a cleared orb shrinks before it slides away. -/
  clearedScale : Single := .zero false
  /-- How far a cleared orb slides, in sides of the surface. -/
  slideDistance : Single := .one
deriving DecidableEq, Inhabited

namespace Rules

/-- The scale of an orb at rest: one band wide. -/
def restScale (r : Rules) : Single := Bands.width r.gridSize

/-- The scale of a selected orb: half of its size at rest. -/
def selectedScale (r : Rules) : Single := r.restScale.half

/-- Whether two games have the same settings, their fractional ones compared as numbers: the two
zeros agree, and not-a-number agrees with nothing. -/
def agree (r s : Rules) : Bool :=
  r.gridSize == s.gridSize && r.phaseTicks == s.phaseTicks
    && r.ticksPerSecond.equal s.ticksPerSecond
    && r.clearedScale.equal s.clearedScale
    && r.slideDistance.equal s.slideDistance

end Rules

end OrbPuzzle
