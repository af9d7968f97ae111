import OrbPuzzle.Binary.Basic
import OrbPuzzle.Color

/-!
# Tiles and cells

A tile is one orb. It is known by an id that no other tile ever has, and carries the three numbers
that transitions animate. A `Pos` names a cell of the board by column and row.
-/

namespace OrbPuzzle

/-- The identity of a tile. -/
abbrev TileId := Nat

/-- The numbers of a tile that transitions animate. -/
inductive Field where
  | centerX
  | centerY
  | scale
deriving DecidableEq, Repr

/-- An orb. Its centre and its scale are fractions of the surface's side. -/
structure Tile where
  id : TileId
  color : Color
  centerX : Single
  centerY : Single
  scale : Single
deriving DecidableEq

namespace Tile

/-- The value of a field. -/
def get (t : Tile) : Field → Single
  | .centerX => t.centerX
  | .centerY => t.centerY
  | .scale => t.scale

/-- The tile with another value in one field. -/
def set (t : Tile) (field : Field) (value : Single) : Tile :=
  match field with
  | .centerX => { t with centerX := value }
  | .centerY => { t with centerY := value }
  | .scale => { t with scale := value }

@[simp]
theorem get_set_self (t : Tile) (field : Field) (value : Single) :
    (t.set field value).get field = value := by
  cases field <;> rfl

theorem get_set_of_ne (t : Tile) {field other : Field} (value : Single) (h : other ≠ field) :
    (t.set field value).get other = t.get other := by
  cases field <;> cases other <;> grind [set, get]

/-- Of two values for one field the second stays. -/
@[simp]
theorem set_set_self (t : Tile) (field : Field) (first second : Single) :
    (t.set field first).set field second = t.set field second := by
  cases field <;> rfl

theorem set_set_comm (t : Tile) {field other : Field} (value otherValue : Single)
    (h : field ≠ other) :
    (t.set field value).set other otherValue = (t.set other otherValue).set field value := by
  cases field <;> cases other <;> grind [set]

@[simp]
theorem id_set (t : Tile) (field : Field) (value : Single) : (t.set field value).id = t.id := by
  cases field <;> rfl

@[simp]
theorem color_set (t : Tile) (field : Field) (value : Single) :
    (t.set field value).color = t.color := by
  cases field <;> rfl

end Tile

/-- A cell of the board. -/
structure Pos where
  col : Nat
  row : Nat
deriving DecidableEq, Repr

/-- A cell was named that a board of this size does not have. -/
structure OutOfBounds where
  pos : Pos
  size : Nat
deriving DecidableEq, Repr

/-- The text of the error. -/
def OutOfBounds.message (e : OutOfBounds) : String :=
  let size := toString e.size
  "Position (" ++ toString e.pos.col ++ ", " ++ toString e.pos.row ++ ") is outside the " ++
    size ++ "x" ++ size ++ " grid"

end OrbPuzzle
