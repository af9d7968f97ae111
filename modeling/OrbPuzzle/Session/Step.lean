import OrbPuzzle.Painting.Surface
import OrbPuzzle.Session.Basic

/-!
# The course of a game

Each frame plays one tick: the transitions in progress are applied to the board, and the commands
due at this tick are carried out in order. A check starts to clear the uniform lines; when they are
gone their cells are refilled, the lines are scored and the board is checked again.
-/

namespace OrbPuzzle.Session

variable {σ : Type}

/-- Starts to clear every uniform line. Gives how many there are. -/
def check (s : Session σ) : Except Fault (Reply (Session σ) Nat) := do
  let reply ← Clearing.queue s.rules s.grid s.grid.uniformLines s.timeline
  return reply.mapState fun timeline => { s with timeline }

/-- Puts a new orb on a cell. The colour is already drawn: the generator after the draw is kept even
if the board does not have the cell. -/
def place (s : Session σ) (pos : Pos) (draw : Color × Generator) :
    Except Fault (Reply (Session σ) Unit) := do
  match ← s.grid.respawn pos draw.1 with
  | .error e => return ⟨{ s with generator := draw.2 }, .error e⟩
  | .ok (_, grid) => return ⟨{ s with grid, generator := draw.2 }, .ok ()⟩

/-- Puts a new orb of a random colour on a cell. -/
def refill (s : Session σ) (pos : Pos) : Except Fault (Reply (Session σ) Unit) :=
  s.place pos (Color.random s.generator)

/-- Adds cleared lines to the score, up to the largest score. A score above the high score becomes
the high score and is stored. -/
def addScore [Store σ] (s : Session σ) (lines : Nat) : Session σ :=
  let score := min (s.score + lines) Score.limit
  if s.highScore < score then
    let (highScore, host) := s.host.setHighScore score
    { s with score, highScore, host }
  else { s with score }

/-- Carries out a command. -/
def execute [Store σ] (s : Session σ) : Command → Except Fault (Reply (Session σ) Unit)
  | .check => do return (← s.check).mapAnswer fun _ => ()
  | .refill pos => s.refill pos
  | .tally lines => do return (← (s.addScore lines).check).mapAnswer fun _ => ()

/-- Carries out commands in order. One for a cell that the board does not have is passed over. -/
def executeAll [Store σ] (s : Session σ) (commands : List Command) : Except Fault (Session σ) :=
  commands.foldlM (fun s command => do return (← s.execute command).state) s

/-- Plays the current tick: animates the board, then carries out the commands that are due. -/
def step [Store σ] (s : Session σ) : Except Fault (Session σ) :=
  let (timeline, grid, due) := s.timeline.play s.grid
  { s with timeline, grid }.executeAll due

/-- Moves on to the next tick. -/
def advance (s : Session σ) : Except Fault (Session σ) := do
  let timeline ← s.timeline.advance
  return { s with timeline }

/-- One frame without painting. -/
def update [Store σ] (s : Session σ) : Except Fault (Session σ) := do
  (← s.step).advance

/-- One frame: plays the tick, paints the board, moves on. -/
def frame {τ : Type} [Store σ] [Surface τ] (s : Session σ) (surface : τ) :
    Except Fault (Session σ × τ) := do
  let s ← s.step
  let surface := Surface.paintGrid surface s.grid
  return (← s.advance, surface)

end OrbPuzzle.Session
