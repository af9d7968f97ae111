import OrbPuzzle.Binary.Arithmetic

/-!
# Points

Pairs of single-precision numbers: positions, sizes and scales in the plane. Arithmetic on them
works coordinate by coordinate.
-/

namespace OrbPuzzle

/-- A pair of coordinates. -/
structure Point where
  x : Single
  y : Single
deriving DecidableEq, Inhabited

namespace Point

instance : Add Point := ⟨fun p q => ⟨p.x + q.x, p.y + q.y⟩⟩
instance : Sub Point := ⟨fun p q => ⟨p.x - q.x, p.y - q.y⟩⟩
instance : Mul Point := ⟨fun p q => ⟨p.x * q.x, p.y * q.y⟩⟩

/-- The origin. -/
def zero : Point := ⟨.zero false, .zero false⟩

/-- Both coordinates one. -/
def one : Point := ⟨.one, .one⟩

/-- Half of a point. -/
def half (p : Point) : Point := ⟨p.x.half, p.y.half⟩

end Point

/-- A width and a height in whole pixels. -/
structure Extent where
  width : Nat
  height : Nat
deriving DecidableEq, Repr

/-- The width and the height as numbers of pixels. -/
def Extent.toPoint (e : Extent) : Point := ⟨.ofNat e.width, .ofNat e.height⟩

end OrbPuzzle
