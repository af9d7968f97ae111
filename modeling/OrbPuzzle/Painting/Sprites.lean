import OrbPuzzle.Layout
import OrbPuzzle.Painting.Surface

/-!
# A surface of sprites

This surface remembers every image that was drawn since it was last cleared, with its corner and
scale in surface pixels. Sprites are then moved to where the images were drawn.
-/

namespace OrbPuzzle

/-- Where the next image goes: the origin, and how much images are stretched. -/
structure Placement where
  origin : Point := .zero
  scale : Point := .one
deriving DecidableEq

/-- An image that was drawn. -/
structure SpriteDraw where
  color : Color
  topLeft : Point
  scale : Point
deriving DecidableEq

/-- The middle of a drawn image whose natural size is given. -/
def SpriteDraw.center (d : SpriteDraw) (imageSize : Point) : Point :=
  d.topLeft + (imageSize * d.scale).half

/-- A surface that remembers what was drawn. -/
structure SpriteSurface where
  layout : Layout := .empty
  /-- The natural size of each colour's image, once it is known. -/
  imageSizes : Palette (Option Point) := .uniform none
  current : Placement := {}
  /-- The saved placements, the last one first. -/
  saved : List Placement := []
  /-- The images drawn, in order. -/
  draws : Array SpriteDraw := #[]
deriving DecidableEq

namespace SpriteSurface

instance : Inhabited SpriteSurface := ⟨{}⟩

/-- The surface after a stroke. A restore without a save before it changes nothing. -/
def stroke (s : SpriteSurface) : Stroke → SpriteSurface
  | .clear => { s with draws := #[], saved := [], current := {} }
  | .save => { s with saved := s.current :: s.saved }
  | .restore =>
    match s.saved with
    | [] => s
    | placement :: saved => { s with current := placement, saved }
  | .translate x y =>
    { s with current.origin := s.current.origin + s.current.scale * ⟨x, y⟩ }
  | .scale x y => { s with current.scale := s.current.scale * ⟨x, y⟩ }
  | .draw color =>
    { s with draws := s.draws.push ⟨color, s.current.origin, s.current.scale⟩ }

instance : Surface SpriteSurface where
  size s := s.layout.size
  imageWidth s color := (s.imageSizes.get color).map (·.x)
  apply := stroke

/-- The surface once the size of a colour's image is known. -/
def setImageSize (s : SpriteSurface) (color : Color) (size : Point) : SpriteSurface :=
  { s with imageSizes := s.imageSizes.set color (some size) }

end SpriteSurface

end OrbPuzzle
