import OrbPuzzle.Binary.Arithmetic

/-!
# Bands of the unit interval

The surface is one wide and one high, and a board of `n` slots cuts each axis into `n` bands of
equal width. Widths and centres are rounded, so a band's limits need not lie where exact arithmetic
would put them; `indexOf` goes by the rounded numbers.
-/

namespace OrbPuzzle.Bands

/-- The width of one of `n` bands. -/
def width (n : Nat) : Single := Binary.one / Binary.ofNat n

/-- The centre of band `index` of `n`. -/
def center (n index : Nat) : Single :=
  (Binary.ofNat index).mulAdd (width n) (width n).half

/-- The band in which a ratio falls: the first whose centre plus half a band lies past it, and the
last one if none does. -/
def indexOf (n : Nat) (ratio : Single) : Nat :=
  ((List.range n).find? fun index => ratio < center n index + center n 0).getD (n - 1)

/-- Every ratio falls in a band, also one outside the interval and one that is not a number. -/
theorem indexOf_lt {n : Nat} (hn : 0 < n) (ratio : Single) : indexOf n ratio < n := by
  unfold indexOf
  cases hfound : (List.range n).find? fun index => ratio < center n index + center n 0 with
  | none => exact Nat.sub_lt hn Nat.one_pos
  | some index => exact List.mem_range.mp (List.mem_of_find?_eq_some hfound)

end OrbPuzzle.Bands
