import OrbPuzzle.Painting.Surface

/-!
# A surface that records

A recorder paints nothing; it keeps the strokes it was given.
-/

namespace OrbPuzzle

/-- A surface that keeps the strokes it was given, in order. -/
structure Recorder where
  size : Single
  imageWidth : Color → Option Single
  strokes : Array Stroke := #[]

namespace Recorder

instance : Surface Recorder where
  size := size
  imageWidth := imageWidth
  apply r stroke := { r with strokes := r.strokes.push stroke }

/-- A recorder of the same size and with the same images as another surface. -/
def like {σ : Type} [Surface σ] (surface : σ) : Recorder where
  size := Surface.size surface
  imageWidth := Surface.imageWidth surface

end Recorder

end OrbPuzzle
