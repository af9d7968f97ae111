import OrbPuzzle.Point

/-!
# The place of the surface in the window

The surface is the largest square that fits the window, centred along the longer side. Three frames
of reference meet here: the window (origin at its top left corner, downwards), the surface (the
same, from the surface's corner) and the world in which sprites live (origin in the middle of the
window, upwards).
-/

namespace OrbPuzzle

/-- The side of the surface, and how far its corner lies from the window's left and top edge. -/
structure Layout where
  size : Single
  left : Single
  top : Single
deriving DecidableEq

namespace Layout

/-- The layout before any window is known. -/
def empty : Layout := ⟨.zero false, .zero false, .zero false⟩

/-- The layout in a window of the given size. -/
def fit (width height : Single) : Layout :=
  if width < height then
    { size := width, left := .zero false, top := (height - width).half }
  else
    { size := height, left := (width - height).half, top := .zero false }

/-- Whether a coordinate lies on the surface. -/
def Spans (l : Layout) (v : Single) : Prop := .zero false ≤ v ∧ v < l.size

instance (l : Layout) (v : Single) : Decidable (l.Spans v) :=
  inferInstanceAs (Decidable (_ ∧ _))

/-- The place on the surface of a place in the window; outside the surface there is none. -/
def toSurface (l : Layout) (window : Point) : Option Point :=
  let place := window - ⟨l.left, l.top⟩
  if l.Spans place.x ∧ l.Spans place.y then some place else none

/-- The place in the world of a place on the surface, for a window of the given size. -/
def toWorld (l : Layout) (place windowSize : Point) : Point where
  x := l.left + place.x - windowSize.x.half
  y := windowSize.y.half - (l.top + place.y)

end Layout

end OrbPuzzle
