import OrbPuzzle.Proofs.Binary.Exact
import OrbPuzzle.Proofs.Grid.Faces

/-!
# Hit testing

A point of the surface belongs to the first band that ends past it. The ends of bands are rounded
sums, and on a large board they need not even grow from band to band. That the bands still divide
the surface in order is due to the search and to the order of numbers alone: a point that lies
before another lies before every end that the other lies before, so its first band cannot come later.

A place is a quotient of a coordinate by the side of the surface; that step is rounded too, but
quotients by one side keep the order of the coordinates.
-/

namespace OrbPuzzle

namespace Bands

/-- Where a band ends: half a band past its centre, as rounded. -/
def limit (n index : Nat) : Single := center n index + center n 0

/-- A band that ends past a ratio, and no band before it does. -/
structure IsFirstPast (n : Nat) (ratio : Single) (index : Nat) : Prop where
  lt : index < n
  past : ratio < limit n index
  not_past : ∀ earlier < index, ¬ ratio < limit n earlier

/-- The band in which a ratio falls: the first one that ends past it, and the last one of all if
none does. -/
def FallsIn (n : Nat) (ratio : Single) (index : Nat) : Prop :=
  IsFirstPast n ratio index ∨ (∀ i < n, ¬ ratio < limit n i) ∧ index = n - 1

/-- The search finds the band, also for a ratio that is infinite or not a number. -/
theorem fallsIn_indexOf (n : Nat) (ratio : Single) : FallsIn n ratio (indexOf n ratio) := by
  unfold indexOf
  cases hfind : (List.range n).find? fun index => ratio < center n index + center n 0 with
  | none =>
    refine .inr ⟨fun i hi hpast => ?_, rfl⟩
    exact List.find?_eq_none.mp hfind i (List.mem_range.mpr hi) (decide_eq_true hpast)
  | some index =>
    obtain ⟨hpast, hmem, hnot⟩ := List.find?_range_eq_some.mp hfind
    refine .inl ⟨List.mem_range.mp hmem, of_decide_eq_true hpast, fun earlier hlt => ?_⟩
    simpa [limit] using hnot earlier hlt

/-- A larger ratio never falls in an earlier band. -/
theorem indexOf_mono {n : Nat} (hn : 0 < n) {ratio ratio' : Single} (h : ratio ≤ ratio') :
    indexOf n ratio ≤ indexOf n ratio' := by
  rcases fallsIn_indexOf n ratio' with hlater | ⟨-, hlast⟩
  · -- the smaller ratio lies before the same end, so no later band can be its first
    have hpast : ratio < limit n (indexOf n ratio') := Binary.lt_of_le_of_lt h hlater.past
    rcases fallsIn_indexOf n ratio with hfirst | ⟨hnone, -⟩
    · by_contra hnot
      exact hfirst.not_past _ (Nat.lt_of_not_le hnot) hpast
    · exact absurd hpast (hnone _ hlater.lt)
  · rw [hlast]
    exact Nat.le_sub_one_of_lt (indexOf_lt hn ratio)

end Bands

namespace Grid

/-- Every ratio falls in the band that the board finds for it. Bands keep the order of ratios, cells
keep the order of coordinates along either axis, and every point has a tile. -/
theorem bands_in_order {g : Grid} (hg : 0 < g.size) :
    (∀ ratio : Single, Bands.FallsIn g.size ratio (Bands.indexOf g.size ratio) ∧
      Bands.indexOf g.size ratio < g.size) ∧
    (∀ ratio ratio' : Single, ratio ≤ ratio' →
      Bands.indexOf g.size ratio ≤ Bands.indexOf g.size ratio') ∧
    (∀ side : Single, .zero false < side → side < .infinite false →
      (∀ x x' y : Single, x ≤ x' → (g.cellAt x y side).col ≤ (g.cellAt x' y side).col ∧
        (g.cellAt x y side).row = (g.cellAt x' y side).row) ∧
      (∀ x y y' : Single, y ≤ y' → (g.cellAt x y side).row ≤ (g.cellAt x y' side).row ∧
        (g.cellAt x y side).col = (g.cellAt x y' side).col)) ∧
    ∀ x y side : Single, ∃ tile, g.tileAt (g.cellAt x y side) = .ok tile := by
  refine ⟨?_, fun _ _ => Bands.indexOf_mono hg, ?_, ?_⟩
  · intro ratio
    exact ⟨Bands.fallsIn_indexOf g.size ratio, Bands.indexOf_lt hg ratio⟩
  · intro side hpos hfinite
    have hmono {v v' : Single} (h : v ≤ v') :
        Bands.indexOf g.size (v / side) ≤ Bands.indexOf g.size (v' / side) :=
      Bands.indexOf_mono hg (Binary.div_le_div_right hpos hfinite h)
    exact ⟨fun _ _ _ h => ⟨hmono h, rfl⟩, fun _ _ _ h => ⟨hmono h, rfl⟩⟩
  · intro x y side
    exact tileAt_eq_ok_of_within (within_cellAt hg x y side)

/-- A board with three bands along each axis. -/
def thirds : Grid where
  size := 3
  tiles := tabulateTiles 3 fun _ => .red
  nextId := 9
  tiles_size := size_tabulateTiles 3 _

/-- What is not a number falls in the last of three bands, and of two points on a surface of 320 the
left one does not come in a later column, wherever they are along the other axis. -/
theorem bands_in_order_thirds :
    0 < thirds.size ∧ Bands.indexOf 3 .nan = 2 ∧ Bands.indexOf 3 (.infinite true) = 0 ∧
      (thirds.cellAt (.ofNat 106) .nan (.ofNat 320)).col ≤
        (thirds.cellAt (.ofNat 107) .nan (.ofNat 320)).col ∧
      ∃ tile, thirds.tileAt (thirds.cellAt (.ofNat 107) .nan (.ofNat 320)) = .ok tile := by
  obtain ⟨hfall, -, hcells, htiles⟩ := bands_in_order (g := thirds) (by decide)
  refine ⟨by decide, ?_, ?_, ?_, htiles _ _ _⟩
  · rcases (hfall .nan).1 with hfirst | ⟨-, hlast⟩
    · cases hfirst.past
    · exact hlast
  · rcases (hfall (.infinite true)).1 with hfirst | ⟨hnone, -⟩
    · by_contra hne
      exact hfirst.not_past 0 (Nat.pos_of_ne_zero hne) (by decide +kernel)
    · exact absurd (by decide +kernel) (hnone 0 (by decide))
  · exact ((hcells (.ofNat 320) (by decide +kernel) (by decide +kernel)).1 _ _ _
      (by decide +kernel)).1

end Grid

end OrbPuzzle
