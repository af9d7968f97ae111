import OrbPuzzle.Grid.Basic

/-!
# Painting

A surface is a square canvas with a current placement that can be saved and restored. It takes
strokes one at a time, and knows the width of an orb's image once that image has been loaded.

## One tile

A tile is painted inside a guarded block: whatever the block does to the placement, it is put back
afterwards. The image of a tile is as wide as the tile's scale asks for, and its middle lies at the
tile's centre. A tile whose image is not loaded, or has no width, is left out.
-/

namespace OrbPuzzle

/-- One call on a surface. -/
inductive Stroke where
  /-- Paint the whole surface white. -/
  | clear
  /-- Save the current placement. -/
  | save
  /-- Go back to the placement saved last. -/
  | restore
  /-- Move the origin. -/
  | translate (x y : Single)
  /-- Stretch what follows. -/
  | scale (x y : Single)
  /-- Draw the image of an orb with its top left corner at the origin. -/
  | draw (color : Color)
deriving DecidableEq

/-- Surfaces that can be painted on. -/
class Surface (σ : Type) where
  /-- The length of the surface's side, in pixels. -/
  size : σ → Single
  /-- The width of a colour's image; none while it is being loaded. -/
  imageWidth : σ → Color → Option Single
  /-- The surface after a stroke. -/
  apply : σ → Stroke → σ

namespace Surface

variable {σ : Type} [Surface σ]

/-- The surface after a list of strokes. -/
def applyAll (surface : σ) (strokes : List Stroke) : σ := strokes.foldl apply surface

/-- Paints with the placement saved before and restored after. -/
def guarded (surface : σ) (body : σ → σ) : σ := apply (body (apply surface .save)) .restore

/-- Paints one tile. -/
def paintTile (surface : σ) (tile : Tile) : σ :=
  match imageWidth surface tile.color with
  | none => surface
  | some natural =>
    if natural ≤ .zero false then surface
    else
      let side := size surface
      let width := side * tile.scale
      let ratio := width / natural
      let back := (-width).half
      guarded surface fun surface => applyAll surface [
        .translate (side.mulAdd tile.centerX back) (side.mulAdd tile.centerY back),
        .scale ratio ratio,
        .draw tile.color]

/-- Paints a board: clears the surface, then paints the tiles in storage order. -/
def paintGrid (surface : σ) (g : Grid) : σ :=
  g.tiles.foldl paintTile (apply surface .clear)

end Surface

end OrbPuzzle
