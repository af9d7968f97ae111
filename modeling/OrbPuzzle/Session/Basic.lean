import OrbPuzzle.Clearing
import OrbPuzzle.Host

/-!
# Play sessions

A session is one game: its board and the animations on it, the score, the orb that is selected, and
the host that remembers the high score. `σ` is the kind of store the host has.
-/

namespace OrbPuzzle

/-- One game. -/
structure Session (σ : Type) where
  rules : Rules
  grid : Grid
  timeline : Timeline Command := {}
  score : Nat := 0
  highScore : Nat
  selected : Option Pos := none
  generator : Generator
  host : Host σ

/-- What a session is busy with. -/
inductive Phase where
  | idle
  | selected
  | animating
deriving DecidableEq, Repr

namespace Session

variable {σ : Type}

/-- A new game on a given board. Its high score is the one that the host remembers. -/
def start [Store σ] (rules : Rules) (host : Host σ) (grid : Grid) (generator : Generator) :
    Session σ where
  rules := rules
  grid := grid
  highScore := host.highScore
  generator := generator
  host := host

/-- A new game on a random board. -/
def deal [Store σ] (rules : Rules) (host : Host σ) (generator : Generator) :
    Except Fault (Session σ) := do
  let (grid, generator) ← Grid.random rules.gridSize generator
  return start rules host grid generator

/-- What the session is busy with: any animation counts before a selection. -/
def phase (s : Session σ) : Phase :=
  if !s.timeline.isIdle then .animating
  else if s.selected.isSome then .selected
  else .idle

end Session

end OrbPuzzle
