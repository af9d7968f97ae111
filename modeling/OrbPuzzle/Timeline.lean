import OrbPuzzle.Grid.Basic
import OrbPuzzle.Transition

/-!
# The timeline

A timeline is a tick counter and the transitions in progress, in the order in which they were added.
Each frame plays the current tick and then advances the counter.

## Playing a tick

Every transition that is active writes its value to the board, in list order, so the last one to
write a field wins. Commands whose transition ends at this tick are handed out, in list order, and
taken out of their transitions, so playing a tick twice hands nothing out twice. Transitions whose
last tick has passed are dropped; one that ends at this very tick stays for one tick more.
-/

namespace OrbPuzzle

/-- The current tick and the transitions in progress, each with a command of type `κ` or none. -/
structure Timeline (κ : Type) where
  tick : Nat := 0
  active : List (Transition κ) := []
deriving DecidableEq

namespace Timeline

variable {κ : Type}

/-- Whether nothing is in progress. -/
def isIdle (t : Timeline κ) : Bool := t.active.isEmpty

/-- Adds transitions after those in progress. -/
def append (t : Timeline κ) (added : List (Transition κ)) : Timeline κ :=
  { t with active := t.active ++ added }

/-- Adds a transition after those in progress. -/
def push (t : Timeline κ) (added : Transition κ) : Timeline κ := t.append [added]

@[simp]
theorem tick_append (t : Timeline κ) (added : List (Transition κ)) :
    (t.append added).tick = t.tick := rfl

@[simp]
theorem active_append (t : Timeline κ) (added : List (Transition κ)) :
    (t.append added).active = t.active ++ added := rfl

@[simp]
theorem append_append (t : Timeline κ) (xs ys : List (Transition κ)) :
    (t.append xs).append ys = t.append (xs ++ ys) := by
  simp only [append, List.append_assoc]

/-- Writes the value of a transition at a tick to the board. -/
def writeTo (tick : Nat) (g : Grid) (t : Transition κ) : Grid :=
  match t.motion, t.valueAt tick with
  | some m, some value => g.write m.tile m.field value
  | _, _ => g

/-- The board once every transition has written its value at the current tick. -/
def animate (t : Timeline κ) (g : Grid) : Grid := t.active.foldl (writeTo t.tick) g

/-- The commands due at the current tick. -/
def due (t : Timeline κ) : List κ := t.active.filterMap (·.dueAt t.tick)

/-- The timeline once the current tick has been played: what has passed is dropped, and what was due
has been handed out. -/
def played (t : Timeline κ) : Timeline κ :=
  { t with active := (t.active.filter (t.tick ≤ ·.stop)).map (·.played t.tick) }

/-- Plays the current tick. Gives the timeline and the board afterwards, and the commands that were
due. -/
def play (t : Timeline κ) (g : Grid) : Timeline κ × Grid × List κ :=
  (t.played, t.animate g, t.due)

/-- Advances the counter by one tick. -/
def advance (t : Timeline κ) : Except Fault (Timeline κ) := do
  let tick ← Count.add t.tick 1
  return { t with tick }

end Timeline

end OrbPuzzle
