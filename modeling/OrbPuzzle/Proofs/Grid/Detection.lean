import Mathlib.Data.List.Nodup
import OrbPuzzle.Proofs.Grid.Faces

/-!
# Which lines are found

The uniform lines of a board are found by walking along each row and each column and comparing
every tile with the first. This module says what is found without the walk: a row or column of the
board on whose cells one colour stands (`HasColor`, in terms of the colour on each cell).

* `mem_uniformLines_iff`: these lines are found, and no others.
* `exists_sorted_uniformLines`: each is listed once, rows before columns and both in order.
* `HasColor.eq_of_crossing`: a row and a column have a cell in common, so if they are found
  together they have one colour.
* `uniformLines_exact` puts this together, for every board.
-/

namespace OrbPuzzle

/-! ## Lines -/

namespace Line

theorem nodup_all (size : Nat) : (all size).Nodup := by
  rw [all, List.nodup_append]
  refine ⟨?_, ?_, ?_⟩
  · exact List.nodup_range.map (fun _ _ h => Line.row.inj h)
  · exact List.nodup_range.map (fun _ _ h => Line.column.inj h)
  · simp

end Line

namespace Grid

/-! ## Colours on cells -/

/-- The colour of the orb on a cell. Outside the board there is none. -/
def colorAt? (g : Grid) (p : Pos) : Option Color := (g.tileAt p).toOption.map Tile.color

/-- The line lies on the board, and on each of its cells stands an orb of this colour. -/
def HasColor (g : Grid) : Line → Color → Prop
  | .row r, color => r < g.size ∧ ∀ c < g.size, g.colorAt? ⟨c, r⟩ = some color
  | .column c, color => c < g.size ∧ ∀ r < g.size, g.colorAt? ⟨c, r⟩ = some color

instance (g : Grid) : (line : Line) → (color : Color) → Decidable (g.HasColor line color)
  | .row _, _ => inferInstanceAs (Decidable (_ ∧ _))
  | .column _, _ => inferInstanceAs (Decidable (_ ∧ _))

theorem hasColor_iff {g : Grid} {line : Line} {color : Color} :
    g.HasColor line color ↔
      line ∈ Line.all g.size ∧ ∀ p ∈ line.cells g.size, g.colorAt? p = some color := by
  rw [Line.mem_all]
  cases line <;> simp [HasColor, Line.index, Line.cells]

theorem colorAt?_eq_some_iff {g : Grid} {p : Pos} {color : Color} :
    g.colorAt? p = some color ↔ ∃ tile, g.tileAt p = .ok tile ∧ tile.color = color := by
  unfold colorAt?
  cases g.tileAt p with
  | error e => simp [Except.toOption]
  | ok tile => simp [Except.toOption]

theorem mem_tilesOn {g : Grid} {line : Line} {tile : Tile} :
    tile ∈ g.tilesOn line ↔ ∃ p ∈ line.cells g.size, g.tileAt p = .ok tile := by
  unfold tilesOn
  rw [List.mem_filterMap]
  refine exists_congr fun p => and_congr_right fun _ => ?_
  cases g.tileAt p with
  | error e => simp [Except.toOption]
  | ok tile => simp [Except.toOption]

/-- The comparison with the first tile of a line is one of all tiles with some colour. -/
theorem isUniform_iff {g : Grid} {line : Line} :
    g.isUniform line = true ↔
      g.tilesOn line ≠ [] ∧ ∃ color, ∀ tile ∈ g.tilesOn line, tile.color = color := by
  unfold isUniform
  cases g.tilesOn line with
  | nil => simp
  | cons first rest =>
    simp only [List.all_eq_true, beq_iff_eq, ne_eq, reduceCtorEq, not_false_eq_true, true_and,
      List.forall_mem_cons]
    constructor
    · intro hrest
      exact ⟨first.color, rfl, hrest⟩
    · rintro ⟨color, rfl, hrest⟩
      exact hrest

/-- A line of the board is uniform if one colour stands on all of its cells. -/
theorem isUniform_iff_of_mem_all {g : Grid} {line : Line} (hline : line ∈ Line.all g.size) :
    g.isUniform line = true ↔ ∃ color, ∀ p ∈ line.cells g.size, g.colorAt? p = some color := by
  have hpos : 0 < g.size := Nat.zero_lt_of_lt (Line.mem_all.mp hline)
  -- no look-up fails along the line, so no cell is left out
  have htile : ∀ p ∈ line.cells g.size, ∃ tile ∈ g.tilesOn line, g.tileAt p = .ok tile := by
    intro p hp
    have hwithin : p.Within g.size :=
      (Line.within_iff_of_mem_cells hp).mpr (Line.mem_all.mp hline)
    obtain ⟨tile, htile⟩ := tileAt_eq_ok_of_within hwithin
    exact ⟨tile, mem_tilesOn.mpr ⟨p, hp, htile⟩, htile⟩
  rw [isUniform_iff]
  constructor
  · rintro ⟨-, color, hcolor⟩
    refine ⟨color, fun p hp => ?_⟩
    obtain ⟨tile, hmem, htile⟩ := htile p hp
    exact colorAt?_eq_some_iff.mpr ⟨tile, htile, hcolor tile hmem⟩
  · rintro ⟨color, hcolor⟩
    constructor
    · obtain ⟨p, hp⟩ : ∃ p, p ∈ line.cells g.size := by
        apply List.exists_mem_of_length_pos
        rw [Line.length_cells]
        exact hpos
      obtain ⟨tile, hmem, -⟩ := htile p hp
      exact List.ne_nil_of_mem hmem
    · refine ⟨color, fun tile hmem => ?_⟩
      obtain ⟨p, hp, htile⟩ := mem_tilesOn.mp hmem
      obtain ⟨found, hfound, hcolor⟩ := colorAt?_eq_some_iff.mp (hcolor p hp)
      obtain rfl : tile = found := Except.ok.inj (htile.symm.trans hfound)
      exact hcolor

/-! ## The report -/

/-- A line is found exactly if it has a colour. -/
theorem mem_uniformLines_iff {g : Grid} {line : Line} :
    line ∈ g.uniformLines ↔ ∃ color, g.HasColor line color := by
  simp only [uniformLines, List.mem_filter, hasColor_iff, exists_and_left]
  exact and_congr_right isUniform_iff_of_mem_all

/-- Rows are listed before columns, and both in increasing order. -/
theorem exists_sorted_uniformLines (g : Grid) :
    ∃ rows columns : List Nat, g.uniformLines = rows.map .row ++ columns.map .column ∧
      rows.Pairwise (· < ·) ∧ columns.Pairwise (· < ·) := by
  refine ⟨(List.range g.size).filter (g.isUniform <| .row ·),
    (List.range g.size).filter (g.isUniform <| .column ·), ?_, ?_, ?_⟩
  · rw [uniformLines, Line.all, List.filter_append, List.filter_map, List.filter_map]
    rfl
  · exact List.pairwise_lt_range.filter _
  · exact List.pairwise_lt_range.filter _

theorem nodup_uniformLines (g : Grid) : g.uniformLines.Nodup := (Line.nodup_all g.size).filter _

theorem isSettled_iff_forall_not_hasColor {g : Grid} :
    g.isSettled = true ↔ ∀ line color, ¬ g.HasColor line color := by
  rw [isSettled, List.isEmpty_iff, List.eq_nil_iff_forall_not_mem]
  simp only [mem_uniformLines_iff, not_exists]

/-- A row and a column cross on the board, so they cannot have different colours. -/
theorem HasColor.eq_of_crossing {g : Grid} {r c : Nat} {color other : Color}
    (hrow : g.HasColor (.row r) color) (hcolumn : g.HasColor (.column c) other) :
    color = other := by
  obtain ⟨hr, hrow⟩ := hrow
  obtain ⟨hc, hcolumn⟩ := hcolumn
  exact Option.some.inj ((hrow c hc).symm.trans (hcolumn r hr))

/-- If a row and a column are found, all lines that are found have one colour. -/
theorem exists_color_of_crossing {g : Grid} {r c : Nat} (hrow : .row r ∈ g.uniformLines)
    (hcolumn : .column c ∈ g.uniformLines) :
    ∃ color, ∀ line ∈ g.uniformLines, g.HasColor line color := by
  obtain ⟨color, hrow⟩ := mem_uniformLines_iff.mp hrow
  obtain ⟨_, hcolumn⟩ := mem_uniformLines_iff.mp hcolumn
  obtain rfl := hrow.eq_of_crossing hcolumn
  refine ⟨color, fun line hline => ?_⟩
  obtain ⟨other, hline⟩ := mem_uniformLines_iff.mp hline
  cases line with
  | row r' => exact hline.eq_of_crossing hcolumn ▸ hline
  | column c' => exact hrow.eq_of_crossing hline ▸ hline

/-- Boards of one size with the same colours on their cells have the same uniform lines. -/
theorem uniformLines_congr {g h : Grid} (hsize : h.size = g.size)
    (hcolors : ∀ p, p.Within g.size → h.colorAt? p = g.colorAt? p) :
    h.uniformLines = g.uniformLines := by
  unfold uniformLines
  rw [hsize]
  apply List.filter_congr
  intro line hline
  have hline' : line ∈ Line.all h.size := hsize ▸ hline
  rw [Bool.eq_iff_iff, isUniform_iff_of_mem_all hline, isUniform_iff_of_mem_all hline', hsize]
  refine exists_congr fun color => forall₂_congr fun p hp => ?_
  rw [hcolors p ((Line.within_iff_of_mem_cells hp).mpr (Line.mem_all.mp hline))]

/-- What the report of a board is. A line is on it exactly if it is a row or a column of the board
on whose cells one colour stands. Each line is listed once, rows in increasing order before columns
in increasing order, so there are at most two for each row; the empty board has none. A board is
settled exactly if no line has a colour. Lines that cross have one colour, so as soon as a row and a
column are listed, all listed lines have it. And nothing but the colours on the cells matters. -/
theorem uniformLines_exact (g : Grid) :
    (∀ line, line ∈ g.uniformLines ↔ ∃ color, g.HasColor line color) ∧
      g.uniformLines.Nodup ∧
      (∃ rows columns : List Nat, g.uniformLines = rows.map .row ++ columns.map .column ∧
        rows.Pairwise (· < ·) ∧ columns.Pairwise (· < ·)) ∧
      g.uniformLines.length ≤ 2 * g.size ∧
      (g.size = 0 → g.uniformLines = []) ∧
      (g.isSettled = true ↔ ∀ line color, ¬ g.HasColor line color) ∧
      (∀ r c, .row r ∈ g.uniformLines → .column c ∈ g.uniformLines →
        ∃ color, ∀ line ∈ g.uniformLines, g.HasColor line color) ∧
      ∀ h : Grid, h.size = g.size → (∀ p, p.Within g.size → h.colorAt? p = g.colorAt? p) →
        h.uniformLines = g.uniformLines := by
  refine ⟨fun _ => mem_uniformLines_iff, g.nodup_uniformLines, g.exists_sorted_uniformLines,
    g.length_uniformLines_le, ?_, isSettled_iff_forall_not_hasColor,
    fun _ _ => exists_color_of_crossing, fun _ => uniformLines_congr⟩
  intro hzero
  have hlength := g.length_uniformLines_le
  exact List.length_eq_zero_iff.mp (by omega)

/-- If each column has a colour of its own, the columns are found and no row is. -/
example : (tabulate 2 fun p => if p.col = 0 then .red else .blue).map uniformLines =
    .ok [.column 0, .column 1] := by
  decide +kernel

end Grid

end OrbPuzzle
