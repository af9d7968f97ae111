import OrbPuzzle.Grid.Basic

/-!
# Rows and columns

A line is a whole row or a whole column. A line is uniform when all of its orbs have one colour; a
board without uniform lines is settled.
-/

namespace OrbPuzzle

/-- A row or a column of a board, by its number. -/
inductive Line where
  | row (index : Nat)
  | column (index : Nat)
deriving DecidableEq, Repr

namespace Line

/-- The cells of a line on a board of the given size, in order. -/
def cells (size : Nat) : Line → List Pos
  | .row index => (List.range size).map fun col => ⟨col, index⟩
  | .column index => (List.range size).map fun row => ⟨index, row⟩

/-- The coordinate along which the orbs of a cleared line leave the board. -/
def exitField : Line → Field
  | .row _ => .centerX
  | .column _ => .centerY

/-- Every line of a board of the given size, rows before columns. -/
def all (size : Nat) : List Line :=
  (List.range size).map .row ++ (List.range size).map .column

end Line

namespace Grid

/-- The tiles on a line, in order. A line that the board does not have holds none. -/
def tilesOn (g : Grid) (line : Line) : List Tile :=
  (line.cells g.size).filterMap fun p => (g.tileAt p).toOption

/-- Whether a line holds orbs and all of them have one colour. -/
def isUniform (g : Grid) (line : Line) : Bool :=
  match g.tilesOn line with
  | [] => false
  | first :: rest => rest.all fun tile => tile.color == first.color

/-- The uniform lines, rows before columns. An orb where two of them cross belongs to both. -/
def uniformLines (g : Grid) : List Line := (Line.all g.size).filter g.isUniform

/-- Whether no line is uniform. -/
def isSettled (g : Grid) : Bool := g.uniformLines.isEmpty

end Grid

end OrbPuzzle
