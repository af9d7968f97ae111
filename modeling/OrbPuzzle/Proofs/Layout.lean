import Mathlib.Tactic.Linarith
import OrbPuzzle.Layout
import OrbPuzzle.Proofs.Binary.Exact

/-!
# Whole pixels are placed exactly

In a window of less than two to the 22nd pixels a side, everything that the layout computes for a
whole pixel is half an integer, and small enough for single precision to hold it. So no step rounds,
and the three frames of reference fit together: what is painted at the place of a press is painted
under the cursor. Half pixels are needed, because the margin of a window is one when the difference
of its sides is odd.

The two axes are treated alike. `Axis` is what the layout knows of one of them.
-/

namespace OrbPuzzle

/-- Single precision has every half of an integer below two to the 24th. -/
theorem Format.holds_of_two_mul {q : ℚ} (m : ℤ) (hq : 2 * q = m) (hm : m.natAbs < 2 ^ 24) :
    Format.single.Holds q := by
  have hheld : Format.single.Holds (m / 2 ^ 1) :=
    holds_of_natAbs_lt hm (by decide) (by decide)
  rwa [pow_one, ← hq, mul_div_cancel_left₀ q two_ne_zero] at hheld

/-- The coordinates of a point, as exact fractions. -/
def Point.Reads (p : Point) (x y : ℚ) : Prop := p.x.value? = some x ∧ p.y.value? = some y

namespace Layout

theorem value?_half {x : Single} {a : ℚ} (hx : x.value? = some a)
    (h : Format.single.Holds (a / 2)) : x.half.value? = some (a / 2) := by
  have htwo : Format.single.Holds (2 : ℕ) :=
    Format.holds_of_two_mul 4 (by norm_num) (by decide)
  exact Binary.value?_div hx (Binary.value?_ofNat htwo) two_ne_zero h

/-- The difference of two whole lengths, halved, is exact. -/
theorem value?_half_sub {long short : Single} {n m : ℕ} (hn : n < 2 ^ 22) (hm : m ≤ n)
    (hlong : long.value? = some (n : ℚ)) (hshort : short.value? = some (m : ℚ)) :
    (long - short).half.value? = some ((n - m : ℚ) / 2) := by
  apply value?_half
  · apply Binary.value?_sub hlong hshort
    exact Format.holds_of_two_mul (2 * n - 2 * m) (by push_cast; ring) (by omega)
  · exact Format.holds_of_two_mul (n - m) (by push_cast; ring) (by omega)

/-- The layout in a window of `w` by `h` pixels: the shorter side, and half of what the longer one
has more. -/
theorem value?_fit {width height : Single} {w h : ℕ} (hw : w < 2 ^ 22) (hh : h < 2 ^ 22)
    (hwidth : width.value? = some (w : ℚ)) (hheight : height.value? = some (h : ℚ)) :
    (fit width height).size.value? = some ((min w h : ℕ) : ℚ) ∧
      (fit width height).left.value? = some ((w - (min w h : ℕ) : ℚ) / 2) ∧
      (fit width height).top.value? = some ((h - (min w h : ℕ) : ℚ) / 2) := by
  have hzero : (Binary.zero false : Single).value? = some 0 := by decide +kernel
  unfold fit
  by_cases hlt : w < h
  · have hfit : width < height := (Binary.lt_iff_of_value? hwidth hheight).mpr (Nat.cast_lt.mpr hlt)
    rw [if_pos hfit, Nat.min_eq_left hlt.le, sub_self, zero_div]
    exact ⟨hwidth, hzero, value?_half_sub hh hlt.le hheight hwidth⟩
  · have hfit : ¬ width < height := fun h =>
      hlt (Nat.cast_lt.mp ((Binary.lt_iff_of_value? hwidth hheight).mp h))
    have hle : h ≤ w := Nat.le_of_not_lt hlt
    rw [if_neg hfit, Nat.min_eq_right hle, sub_self, zero_div]
    exact ⟨hheight, value?_half_sub hw hle hwidth hheight, hzero⟩

/-- One axis of a window of `length` pixels with a surface of `size` pixels in its middle, and a
cursor on a pixel. -/
structure Axis (length size pixel : ℕ) (side margin cursor : Single) : Prop where
  size_le : size ≤ length
  length_lt : length < 2 ^ 22
  pixel_lt : pixel < length
  side_eq : side.value? = some (size : ℚ)
  margin_eq : margin.value? = some ((length - size : ℚ) / 2)
  cursor_eq : cursor.value? = some (pixel : ℚ)

namespace Axis

variable {length size pixel : ℕ} {side margin cursor : Single}

theorem value?_place (axis : Axis length size pixel side margin cursor) :
    (cursor - margin).value? = some (pixel - (length - size : ℚ) / 2) := by
  have hsize := axis.size_le
  have hlength := axis.length_lt
  have hpixel := axis.pixel_lt
  apply Binary.value?_sub axis.cursor_eq axis.margin_eq
  exact Format.holds_of_two_mul (2 * pixel - (length - size)) (by push_cast; ring) (by omega)

/-- The cursor is on the surface exactly if it is past the margin and before its other end. -/
theorem spans_iff (axis : Axis length size pixel side margin cursor) {l : Layout}
    (hl : l.size = side) :
    l.Spans (cursor - margin) ↔
      (length - size : ℚ) / 2 ≤ pixel ∧ (pixel : ℚ) < (length - size : ℚ) / 2 + size := by
  have hzero : (Binary.zero false : Single).value? = some 0 := by decide +kernel
  rw [Spans, hl, Binary.le_iff_of_value? hzero axis.value?_place,
    Binary.lt_iff_of_value? axis.value?_place axis.side_eq, sub_nonneg, sub_lt_iff_lt_add']

theorem value?_back (axis : Axis length size pixel side margin cursor) :
    (margin + (cursor - margin)).value? = some (pixel : ℚ) := by
  have hlength := axis.length_lt
  have hpixel := axis.pixel_lt
  have hsum : (length - size : ℚ) / 2 + (pixel - (length - size : ℚ) / 2) = pixel := by ring
  rw [← hsum]
  apply Binary.value?_add axis.margin_eq axis.value?_place
  exact Format.holds_of_two_mul (2 * pixel) (by push_cast; ring) (by omega)

theorem value?_middle (axis : Axis length size pixel side margin cursor) {whole : Single}
    (hwhole : whole.value? = some (length : ℚ)) : whole.half.value? = some (length / 2 : ℚ) := by
  have hlength := axis.length_lt
  apply value?_half hwhole
  exact Format.holds_of_two_mul length (by push_cast; ring) (by omega)

/-- How far the place on the surface lies past the middle of the window, seen from its corner. -/
theorem value?_past_middle (axis : Axis length size pixel side margin cursor) {whole : Single}
    (hwhole : whole.value? = some (length : ℚ)) :
    (margin + (cursor - margin) - whole.half).value? = some (pixel - length / 2 : ℚ) := by
  have hlength := axis.length_lt
  have hpixel := axis.pixel_lt
  apply Binary.value?_sub axis.value?_back (axis.value?_middle hwhole)
  exact Format.holds_of_two_mul (2 * pixel - length) (by push_cast; ring) (by omega)

theorem value?_before_middle (axis : Axis length size pixel side margin cursor) {whole : Single}
    (hwhole : whole.value? = some (length : ℚ)) :
    (whole.half - (margin + (cursor - margin))).value? = some (length / 2 - pixel : ℚ) := by
  have hlength := axis.length_lt
  have hpixel := axis.pixel_lt
  apply Binary.value?_sub (axis.value?_middle hwhole) axis.value?_back
  exact Format.holds_of_two_mul (length - 2 * pixel) (by push_cast; ring) (by omega)

end Axis

theorem toSurface_eq_some_iff {l : Layout} {cursor place : Point} :
    l.toSurface cursor = some place ↔
      (l.Spans (cursor.x - l.left) ∧ l.Spans (cursor.y - l.top)) ∧
        (⟨cursor.x - l.left, cursor.y - l.top⟩ : Point) = place := by
  unfold toSurface
  rw [Option.ite_none_right_eq_some, Option.some_inj]
  rfl

/-- In a window of `w` by `h` pixels the surface is as large as the shorter side and stands in the
middle, with margins of whole or half pixels. A cursor on a pixel is on the surface exactly if it is
between the margins, and then its place on the surface and in the world is given without error. -/
theorem pixels_exact {w h : ℕ} (hw : w < 2 ^ 22) (hh : h < 2 ^ 22) {window : Point}
    (hwindow : window.Reads w h) :
    ∃ left top : ℚ, (fit window.x window.y).size.value? = some ((min w h : ℕ) : ℚ) ∧
      (fit window.x window.y).left.value? = some left ∧
      (fit window.x window.y).top.value? = some top ∧
      2 * left + (min w h : ℕ) = w ∧ 2 * top + (min w h : ℕ) = h ∧
      ∀ x < w, ∀ y < h, ∀ cursor : Point, cursor.Reads x y →
        (((fit window.x window.y).toSurface cursor).isSome ↔
          (left ≤ x ∧ x < left + (min w h : ℕ)) ∧ (top ≤ y ∧ y < top + (min w h : ℕ))) ∧
        ∀ place, (fit window.x window.y).toSurface cursor = some place →
          place.Reads (x - left) (y - top) ∧
          ((fit window.x window.y).toWorld place window).Reads (x - w / 2) (h / 2 - y) := by
  obtain ⟨hsize, hleft, htop⟩ := value?_fit hw hh hwindow.1 hwindow.2
  refine ⟨_, _, hsize, hleft, htop, by ring, by ring, ?_⟩
  intro x hx y hy cursor hcursor
  have horizontal : Axis w (min w h) x _ _ cursor.x :=
    ⟨Nat.min_le_left w h, hw, hx, hsize, hleft, hcursor.1⟩
  have vertical : Axis h (min w h) y _ _ cursor.y :=
    ⟨Nat.min_le_right w h, hh, hy, hsize, htop, hcursor.2⟩
  constructor
  · rw [← horizontal.spans_iff rfl, ← vertical.spans_iff rfl, Option.isSome_iff_exists]
    simp only [toSurface_eq_some_iff, exists_and_left, exists_eq', and_true]
  · intro place hplace
    obtain ⟨-, rfl⟩ := toSurface_eq_some_iff.mp hplace
    exact ⟨⟨horizontal.value?_place, vertical.value?_place⟩,
      horizontal.value?_past_middle hwindow.1, vertical.value?_before_middle hwindow.2⟩

/-- A window of 7 by 4 pixels has margins of one and a half pixels; the third pixel of its last row
is half a pixel from the left edge of the surface. -/
theorem pixels_exact_sevenByFour :
    (⟨.ofNat 7, .ofNat 4⟩ : Point).Reads 7 4 ∧
      ∃ place, (fit (.ofNat 7) (.ofNat 4)).toSurface ⟨.ofNat 2, .ofNat 3⟩ = some place ∧
        place.Reads (1 / 2) 3 ∧
        ((fit (.ofNat 7) (.ofNat 4)).toWorld place ⟨.ofNat 7, .ofNat 4⟩).Reads (-(3 / 2)) (-1) := by
  have hwindow : (⟨.ofNat 7, .ofNat 4⟩ : Point).Reads (7 : ℕ) (4 : ℕ) :=
    ⟨by decide +kernel, by decide +kernel⟩
  have hcursor : (⟨.ofNat 2, .ofNat 3⟩ : Point).Reads (2 : ℕ) (3 : ℕ) :=
    ⟨by decide +kernel, by decide +kernel⟩
  obtain ⟨left, top, -, -, -, hleft, htop, hpixels⟩ :=
    pixels_exact (by decide) (by decide) hwindow
  obtain ⟨hsome, hplace⟩ := hpixels 2 (by decide) 3 (by decide) _ hcursor
  norm_num at hleft htop
  obtain rfl : left = 3 / 2 := by linarith
  obtain rfl : top = 0 := by linarith
  obtain ⟨place, heq⟩ := Option.isSome_iff_exists.mp (hsome.mpr (by norm_num))
  refine ⟨hwindow, place, heq, ?_⟩
  have hreads := hplace place heq
  norm_num at hreads
  exact hreads

end Layout

end OrbPuzzle
