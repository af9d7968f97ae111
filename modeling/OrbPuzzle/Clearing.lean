import OrbPuzzle.Grid.Line
import OrbPuzzle.Reply
import OrbPuzzle.Rules
import OrbPuzzle.Timeline

/-!
# Clearing lines

Clearing a line takes two phases. In the first its orbs shrink; in the second they slide off the
board along the line, and each asks for a refill of its cell when it is gone. One transition more,
which moves nothing, spans the second phase and reports how many lines were cleared. It comes last
in the list, so the report is heard after every refill.

## Order of the checks

Nothing is computed for an empty list of lines. Otherwise the ends of the two phases come first,
then the cells one by one: whether the board has the cell, then the cell's two transitions. At a
cell that the board does not have, the work stops and leaves queued what was queued before.
-/

namespace OrbPuzzle

/-- What a transition asks of the game when it ends. -/
inductive Command where
  /-- Look for uniform lines and start to clear them. -/
  | check
  /-- Put a new random orb on a cell. -/
  | refill (pos : Pos)
  /-- Score this many cleared lines, then check again. -/
  | tally (lines : Nat)
deriving DecidableEq, Repr

namespace Clearing

/-- The three ticks of a clearing: it starts, the orbs have shrunk, the orbs are gone. -/
structure Schedule where
  start : Nat
  shrunk : Nat
  gone : Nat

/-- The ticks of a clearing that starts at a given tick, with two phases of the given length. -/
def Schedule.starting (start phase : Nat) : Except Fault Schedule := do
  let shrunk ← Count.add start phase
  let gone ← Count.add shrunk phase
  return { start, shrunk, gone }

/-- The two transitions of one orb of a clearing line: it shrinks, then slides away along the line
and has its cell refilled. -/
def cellTransitions (rules : Rules) (ticks : Schedule) (line : Line) (pos : Pos) (tile : Tile) :
    Except Fault (List (Transition Command)) := do
  let place := tile.get line.exitField
  let shrink ← Transition.make ticks.start ticks.shrunk
    (some {
      tile := tile.id, field := .scale, source := tile.scale, target := rules.clearedScale
      easing := .windupOvershoot })
    none
  let slide ← Transition.make ticks.shrunk ticks.gone
    (some {
      tile := tile.id, field := line.exitField, source := place
      target := place + rules.slideDistance, easing := .easeBoth })
    (some (.refill pos))
  return [shrink, slide]

/-- The transitions of a list of cells, each with the line it is cleared with, up to the first cell
that the board does not have. -/
def transitions (rules : Rules) (ticks : Schedule) (g : Grid) :
    List (Line × Pos) → Except Fault (Reply (List (Transition Command)) Unit)
  | [] => .ok ⟨[], .ok ()⟩
  | (line, pos) :: rest =>
    match g.tileAt pos with
    | .error e => .ok ⟨[], .error e⟩
    | .ok tile => do
      let first ← cellTransitions rules ticks line pos tile
      let others ← transitions rules ticks g rest
      return others.mapState (first ++ ·)

/-- Queues the clearing of the given lines, in order. Gives their number. -/
def queue (rules : Rules) (g : Grid) (lines : List Line) (timeline : Timeline Command) :
    Except Fault (Reply (Timeline Command) Nat) :=
  if lines.isEmpty then .ok ⟨timeline, .ok 0⟩
  else do
    let ticks ← Schedule.starting timeline.tick rules.phaseTicks
    let cells := lines.flatMap fun line => (line.cells g.size).map (line, ·)
    match ← transitions rules ticks g cells with
    | ⟨added, .error e⟩ => return ⟨timeline.append added, .error e⟩
    | ⟨added, .ok ()⟩ =>
      let report ← Transition.make ticks.shrunk ticks.gone none (some (.tally lines.length))
      return ⟨timeline.append (added ++ [report]), .ok lines.length⟩

end Clearing

end OrbPuzzle
