import OrbPuzzle.Session.Basic

/-!
# Clicks

The first click selects an orb, a second one on the same cell cancels the selection, and a second
one elsewhere swaps the two orbs. While anything is in progress, clicks are ignored.

## The swap

A selected orb is small already. In the first phase of a swap the other orb shrinks, in the second
the two move to each other's place, and in the third both grow back; when the selected one has
grown the board is checked. The two tiles change slots at once, at the time of the click.

## Order of the checks

Selecting and cancelling compute the end of the phase first, then look at the cell, then at the
span. Swapping looks at both cells before it computes anything.
-/

namespace OrbPuzzle

/-- What a click did. -/
inductive ClickOutcome where
  /-- Something was still in progress. -/
  | ignored
  | selected (pos : Pos)
  /-- The selected cell was clicked again. -/
  | cancelled (pos : Pos)
  | swapped (first second : Pos)
deriving DecidableEq, Repr

namespace Session

variable {σ : Type}

/-- A transition that changes the scale of a tile. -/
def resizing (tile : TileId) (source target : Single) (start stop : Nat)
    (onDone : Option Command) : Except Fault (Transition Command) :=
  Transition.make start stop
    (some { tile, field := .scale, source, target, easing := .windupOvershoot }) onDone

/-- A transition that takes one coordinate of a tile to that of another tile. -/
def moving (mover target : Tile) (field : Field) (start stop : Nat) :
    Except Fault (Transition Command) :=
  Transition.make start stop
    (some {
      tile := mover.id, field, source := mover.get field, target := target.get field
      easing := .easeBoth })
    none

/-- Changes the scale of the tile on a cell over one phase, from now on. -/
def resize (s : Session σ) (pos : Pos) (source target : Single) :
    Except Fault (Reply (Session σ) Unit) := do
  let stop ← Count.add s.timeline.tick s.rules.phaseTicks
  match s.grid.tileAt pos with
  | .error e => return ⟨s, .error e⟩
  | .ok tile =>
    let transition ← resizing tile.id source target s.timeline.tick stop none
    return ⟨{ s with timeline := s.timeline.push transition }, .ok ()⟩

/-- The transitions of a swap that starts at a given tick. `first` is the selected tile. -/
def swapTransitions (rules : Rules) (tick : Nat) (first second : Tile) :
    Except Fault (List (Transition Command)) := do
  let shrunk ← Count.add tick rules.phaseTicks
  let moved ← Count.add shrunk rules.phaseTicks
  let grown ← Count.add moved rules.phaseTicks
  let (rest, small) := (rules.restScale, rules.selectedScale)
  return [
    ← resizing second.id rest small tick shrunk none,
    ← moving second first .centerX shrunk moved,
    ← moving second first .centerY shrunk moved,
    ← moving first second .centerX shrunk moved,
    ← moving first second .centerY shrunk moved,
    ← resizing second.id small rest moved grown none,
    ← resizing first.id small rest moved grown (some .check)]

/-- Swaps the tiles of two cells and animates it; the first cell is the selected one. -/
def swap (s : Session σ) (first second : Pos) : Except Fault (Reply (Session σ) Unit) :=
  match s.grid.tileAt first, s.grid.tileAt second with
  | .error e, _ => .ok ⟨s, .error e⟩
  | .ok _, .error e => .ok ⟨s, .error e⟩
  | .ok firstTile, .ok secondTile => do
    let added ← swapTransitions s.rules s.timeline.tick firstTile secondTile
    let timeline := s.timeline.append added
    match s.grid.swap first second with
    | .error e => return ⟨{ s with timeline }, .error e⟩
    | .ok grid => return ⟨{ s with timeline, grid }, .ok ()⟩

/-- Ends an accepted click: if the cells it named exist, the selection changes and the click has its
outcome. -/
def concludeClick (reply : Except Fault (Reply (Session σ) Unit)) (selected : Option Pos)
    (outcome : ClickOutcome) : Except Fault (Reply (Session σ) ClickOutcome) := do
  match ← reply with
  | ⟨s, .error e⟩ => return ⟨s, .error e⟩
  | ⟨s, .ok ()⟩ => return ⟨{ s with selected }, .ok outcome⟩

/-- A click on a cell. -/
def clickCell (s : Session σ) (pos : Pos) : Except Fault (Reply (Session σ) ClickOutcome) :=
  let (rest, small) := (s.rules.restScale, s.rules.selectedScale)
  if !s.timeline.isIdle then .ok ⟨s, .ok .ignored⟩
  else
    match s.selected with
    | none => concludeClick (s.resize pos rest small) (some pos) (.selected pos)
    | some chosen =>
      if chosen = pos then concludeClick (s.resize pos small rest) none (.cancelled pos)
      else concludeClick (s.swap chosen pos) none (.swapped chosen pos)

/-- A click at a point of a surface with the given side. -/
def click (s : Session σ) (x y surfaceSize : Single) :
    Except Fault (Reply (Session σ) ClickOutcome) :=
  s.clickCell (s.grid.cellAt x y surfaceSize)

end Session

end OrbPuzzle
