import OrbPuzzle.Bands
import OrbPuzzle.Fault
import OrbPuzzle.Tile

/-!
# The board of slots

A grid of size `n` has `n * n` slots, stored column by column, and every slot holds one tile. The
grid numbers the tiles it makes; a tile that is replaced never comes back.

## Cells and slots

`Pos.index` and `Pos.ofIndex` go between a cell and its place in storage. Asking for a cell that the
board does not have is an `OutOfBounds` error and changes nothing.

## Tiles by id

Animations know tiles by id only, because tiles change slots while they move. `modifyTile` changes
the first tile in storage order with a given id, and does nothing once that tile is gone.
-/

namespace OrbPuzzle

namespace Pos

/-- Whether a cell lies on a board of the given size. -/
def Within (p : Pos) (size : Nat) : Prop := p.col < size ∧ p.row < size

instance (p : Pos) (size : Nat) : Decidable (p.Within size) :=
  inferInstanceAs (Decidable (_ ∧ _))

/-- The place of a cell in storage. -/
def index (p : Pos) (size : Nat) : Nat := p.col * size + p.row

/-- The cell stored at a place. -/
def ofIndex (size index : Nat) : Pos := ⟨index / size, index % size⟩

/-- A cell on the board has a place in storage. -/
theorem index_lt {p : Pos} {size : Nat} (h : p.Within size) : p.index size < size * size :=
  calc p.col * size + p.row
    _ < p.col * size + size := Nat.add_lt_add_left h.2 _
    _ = (p.col + 1) * size := (Nat.succ_mul _ _).symm
    _ ≤ size * size := Nat.mul_le_mul_right _ h.1

/-- Going to storage and back gives the cell again. -/
theorem ofIndex_index {p : Pos} {size : Nat} (h : p.Within size) :
    ofIndex size (p.index size) = p := by
  have hpos : 0 < size := Nat.lt_of_le_of_lt (Nat.zero_le _) h.2
  have hdiv : (p.col * size + p.row) / size = p.col := by
    rw [Nat.mul_comm, Nat.mul_add_div hpos, Nat.div_eq_of_lt h.2, Nat.add_zero]
  have hmod : (p.col * size + p.row) % size = p.row := by
    rw [Nat.mul_comm, Nat.mul_add_mod, Nat.mod_eq_of_lt h.2]
  simp only [ofIndex, index, hdiv, hmod]

/-- Going to the board and back gives the place again. -/
theorem index_ofIndex (size i : Nat) : (ofIndex size i).index size = i :=
  Nat.div_add_mod' i size

/-- Every place in storage belongs to a cell of the board. -/
theorem within_ofIndex {size i : Nat} (h : i < size * size) : (ofIndex size i).Within size := by
  have hpos : 0 < size := by
    rcases Nat.eq_zero_or_pos size with rfl | hpos
    · exact absurd h (Nat.not_lt_zero _)
    · exact hpos
  exact ⟨Nat.div_lt_of_lt_mul h, Nat.mod_lt _ hpos⟩

end Pos

/-- A square board with a tile in every slot. -/
structure Grid where
  /-- Slots per row and per column. -/
  size : Nat
  /-- The tiles in storage order, which is also the order in which they are painted. -/
  tiles : Array Tile
  /-- The id of the next tile the grid makes. -/
  nextId : TileId
  tiles_size : tiles.size = size * size
deriving DecidableEq

namespace Grid

/-- A tile with the given id and colour that rests on a cell of a board of the given size. -/
def restingTile (size : Nat) (id : TileId) (p : Pos) (color : Color) : Tile where
  id := id
  color := color
  centerX := Bands.center size p.col
  centerY := Bands.center size p.row
  scale := Bands.width size

/-! ## Making a board -/

/-- The most tiles that storage can hold. A tile takes 24 bytes, and storage ends at the last
multiple of eight below `2^63` bytes. -/
def capacity : Nat := 0x7ffffffffffffff8 / 24

/-- The number of slots of a board, if storage can hold them. -/
def slotCount (size : Nat) : Except Fault Nat := do
  let count ← Count.mul size size
  if count ≤ capacity then return count else throw .storageExceeded

/-- The tiles of a board, numbered in storage order. The centres of the bands are computed once and
shared by all tiles. -/
def tabulateTiles (size : Nat) (color : Pos → Color) : Array Tile :=
  let centers := Vector.ofFn fun i : Fin size => Bands.center size i
  let scale := Bands.width size
  Array.ofFn fun i : Fin (size * size) =>
    let p := Pos.ofIndex size i
    have col_lt : p.col < size := (Pos.within_ofIndex i.isLt).1
    have row_lt : p.row < size := (Pos.within_ofIndex i.isLt).2
    { id := i, color := color p, centerX := centers[p.col], centerY := centers[p.row], scale }

theorem size_tabulateTiles (size : Nat) (color : Pos → Color) :
    (tabulateTiles size color).size = size * size :=
  Array.size_ofFn

/-- Each tile of a board that was just made rests on its own cell. -/
theorem tabulateTiles_eq (size : Nat) (color : Pos → Color) :
    tabulateTiles size color = Array.ofFn fun i : Fin (size * size) =>
      restingTile size i (Pos.ofIndex size i) (color (Pos.ofIndex size i)) := by
  simp only [tabulateTiles, restingTile, Vector.getElem_ofFn]

/-- The board whose tiles have the colours that `color` gives. -/
def tabulate (size : Nat) (color : Pos → Color) : Except Fault Grid := do
  let _ ← slotCount size
  return {
    size
    tiles := tabulateTiles size color
    nextId := size * size
    tiles_size := Array.size_ofFn }

/-- A board of random colours, drawn in storage order, and the generator after it. -/
def random (size : Nat) (g : Generator) : Except Fault (Grid × Generator) := do
  let count ← slotCount size
  let (colors, g) := Color.randomList count g
  let colors := colors.toArray
  let grid ← tabulate size fun p => colors.getD (p.index size) default
  return (grid, g)

/-! ## Slots -/

/-- The place of a cell in the storage of this board. -/
def slot (g : Grid) (p : Pos) : Except OutOfBounds (Fin g.tiles.size) :=
  if h : p.Within g.size then .ok ⟨p.index g.size, g.tiles_size ▸ Pos.index_lt h⟩
  else .error ⟨p, g.size⟩

/-- The tile on a cell. -/
def tileAt (g : Grid) (p : Pos) : Except OutOfBounds Tile := do
  let i ← g.slot p
  return g.tiles[i]

/-- The board with another tile in one storage place. -/
def setSlot (g : Grid) (i : Fin g.tiles.size) (tile : Tile) : Grid where
  size := g.size
  tiles := g.tiles.set i tile
  nextId := g.nextId
  tiles_size := by simp [g.tiles_size]

/-- Puts a tile on a cell. Gives the tile it displaced and the new board. -/
def setTile (g : Grid) (p : Pos) (tile : Tile) : Except OutOfBounds (Tile × Grid) := do
  let i ← g.slot p
  return (g.tiles[i], g.setSlot i tile)

/-- Replaces the tile on a cell by a new one that rests there. Gives the new tile's id and the new
board. The cell is checked before an id is spent. -/
def respawn (g : Grid) (p : Pos) (color : Color) :
    Except Fault (Except OutOfBounds (TileId × Grid)) :=
  match g.slot p with
  | .error e => .ok (.error e)
  | .ok i => do
    let nextId ← Count.add g.nextId 1
    return .ok (g.nextId, { g.setSlot i (restingTile g.size g.nextId p color) with nextId })

/-- Exchanges the tiles of two cells. The tiles themselves keep everything, also where they are
shown. The first cell is checked before the second. -/
def swap (g : Grid) (a b : Pos) : Except OutOfBounds Grid := do
  let i ← g.slot a
  let j ← g.slot b
  return { g with tiles := g.tiles.swap i j, tiles_size := by simp [g.tiles_size] }

/-! ## Tiles by id -/

/-- The first tile in storage order with an id. -/
def tile? (g : Grid) (id : TileId) : Option Tile := g.tiles.find? (·.id == id)

/-- The cell of the first tile in storage order with an id. -/
def positionOf? (g : Grid) (id : TileId) : Option Pos :=
  (g.tiles.findIdx? (·.id == id)).map (Pos.ofIndex g.size)

/-- Changes the first tile in storage order with an id. Without such a tile the board stays as it
is. -/
def modifyTile (g : Grid) (id : TileId) (change : Tile → Tile) : Grid :=
  match g.tiles.findFinIdx? (·.id == id) with
  | none => g
  | some i => g.setSlot i (change g.tiles[i])

/-- Sets one field of the tile with an id. -/
def write (g : Grid) (id : TileId) (field : Field) (value : Single) : Grid :=
  g.modifyTile id (·.set field value)

/-! ## Hit testing -/

/-- The cell under a point of a surface of the given side. -/
def cellAt (g : Grid) (x y surfaceSize : Single) : Pos :=
  ⟨Bands.indexOf g.size (x / surfaceSize), Bands.indexOf g.size (y / surfaceSize)⟩

/-- If the board has a cell, every point belongs to one. -/
theorem within_cellAt {g : Grid} (h : 0 < g.size) (x y surfaceSize : Single) :
    (g.cellAt x y surfaceSize).Within g.size :=
  ⟨Bands.indexOf_lt h _, Bands.indexOf_lt h _⟩

end Grid

end OrbPuzzle
