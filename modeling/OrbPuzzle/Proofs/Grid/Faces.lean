import OrbPuzzle.Grid.Line
import OrbPuzzle.Proofs.Faults

/-!
# The faces of a board

The rules of the game look at two things in a slot: which tile is there, and which colour it has.
Together they are the slot's face. Animations write the other fields of a tile, so they never change
a face, and everything the rules decide can be read off the faces.

* `sameFaces_write`: writing a field changes no face.
* `SameFaces.uniformLines_eq`: boards with the same faces have the same uniform lines.
* `swap_eq_ok`, `respawn_eq_ok`: what the two operations that do change faces leave alone.
-/

namespace OrbPuzzle

/-- What the rules of the game see of a tile. -/
def Tile.face (t : Tile) : TileId × Color := (t.id, t.color)

@[simp]
theorem Tile.face_set (t : Tile) (field : Field) (value : Single) :
    (t.set field value).face = t.face := by
  rw [face, face, id_set, color_set]

namespace Line

/-- The number of a line, among the rows or among the columns. -/
def index : Line → Nat
  | .row index => index
  | .column index => index

theorem mem_all {size : Nat} {line : Line} : line ∈ all size ↔ line.index < size := by
  cases line <;> simp [all, index]

theorem length_cells (size : Nat) (line : Line) : (line.cells size).length = size := by
  cases line <;> simp [cells]

/-- A cell of a line lies on the board exactly if the line does. -/
theorem within_iff_of_mem_cells {size : Nat} {line : Line} {p : Pos} (h : p ∈ line.cells size) :
    p.Within size ↔ line.index < size := by
  cases line with
  | row r =>
    obtain ⟨c, hc, rfl⟩ := List.mem_map.mp h
    simp [Pos.Within, index, List.mem_range.mp hc]
  | column c =>
    obtain ⟨r, hr, rfl⟩ := List.mem_map.mp h
    simp [Pos.Within, index, List.mem_range.mp hr]

end Line

namespace Grid

/-- The face of each slot, in storage order. -/
def faces (g : Grid) : Array (TileId × Color) := g.tiles.map Tile.face

/-- Two boards that the rules of the game cannot tell apart. -/
structure SameFaces (g h : Grid) : Prop where
  size_eq : h.size = g.size
  faces_eq : h.faces = g.faces
  nextId_eq : h.nextId = g.nextId

theorem SameFaces.refl (g : Grid) : SameFaces g g := ⟨rfl, rfl, rfl⟩

theorem SameFaces.trans {g h k : Grid} (first : SameFaces g h) (second : SameFaces h k) :
    SameFaces g k where
  size_eq := second.size_eq.trans first.size_eq
  faces_eq := second.faces_eq.trans first.faces_eq
  nextId_eq := second.nextId_eq.trans first.nextId_eq

/-- A board is its size, its tiles and the next id. -/
theorem eq_of_getElem? {g h : Grid} (hsize : h.size = g.size) (hnextId : h.nextId = g.nextId)
    (htiles : ∀ i : Nat, h.tiles[i]? = g.tiles[i]?) : h = g := by
  obtain ⟨size, tiles, nextId, tiles_size⟩ := g
  obtain ⟨size', tiles', nextId', tiles_size'⟩ := h
  obtain rfl : size' = size := hsize
  obtain rfl : nextId' = nextId := hnextId
  obtain rfl : tiles' = tiles := Array.ext_getElem? htiles
  rfl

/-! ## Writing a field -/

/-- Replacing a tile by one with the same face changes no face. -/
theorem faces_setSlot (g : Grid) {i : Nat} (hi : i < g.tiles.size) {tile : Tile}
    (h : tile.face = g.tiles[i].face) : (g.setSlot ⟨i, hi⟩ tile).faces = g.faces := by
  apply Array.ext
  · simp only [faces, setSlot, Array.size_map, Array.size_set]
  · intro j hj _
    simp only [faces, setSlot, Array.getElem_map, Array.getElem_set]
    split
    · subst j
      exact h
    · rfl

/-- Writing a field of a tile changes no face. -/
theorem sameFaces_write (g : Grid) (id : TileId) (field : Field) (value : Single) :
    SameFaces g (g.write id field value) := by
  unfold write modifyTile
  split
  · exact SameFaces.refl g
  · exact ⟨rfl, faces_setSlot g (Fin.isLt _) (Tile.face_set _ _ _), rfl⟩

/-! ## Cells of a board -/

theorem slot_eq_ok_of_within {g : Grid} {p : Pos} (h : p.Within g.size) :
    ∃ i, g.slot p = .ok i := by
  unfold slot
  rw [dif_pos h]
  exact ⟨_, rfl⟩

theorem within_of_slot_eq_ok {g : Grid} {p : Pos} {i : Fin g.tiles.size}
    (h : g.slot p = .ok i) : p.Within g.size := by
  unfold slot at h
  split at h
  · assumption
  · cases h

theorem slot_of_not_within {g : Grid} {p : Pos} (h : ¬ p.Within g.size) :
    g.slot p = .error ⟨p, g.size⟩ :=
  dif_neg h

theorem tileAt_eq_ok_of_within {g : Grid} {p : Pos} (h : p.Within g.size) :
    ∃ tile, g.tileAt p = .ok tile := by
  obtain ⟨i, hi⟩ := slot_eq_ok_of_within h
  exact ⟨g.tiles[i], bind_eq_ok_iff.mpr ⟨i, hi, rfl⟩⟩

theorem within_of_tileAt_eq_ok {g : Grid} {p : Pos} {tile : Tile}
    (h : g.tileAt p = .ok tile) : p.Within g.size := by
  obtain ⟨i, hi, _⟩ := bind_eq_ok_iff.mp h
  exact within_of_slot_eq_ok hi

theorem not_within_of_tileAt_eq_error {g : Grid} {p : Pos} {e : OutOfBounds}
    (h : g.tileAt p = .error e) : ¬ p.Within g.size := by
  intro hp
  obtain ⟨tile, htile⟩ := tileAt_eq_ok_of_within hp
  cases htile.symm.trans h

theorem tileAt_of_not_within {g : Grid} {p : Pos} (h : ¬ p.Within g.size) :
    g.tileAt p = .error ⟨p, g.size⟩ := by
  rw [tileAt, slot_of_not_within h]
  rfl

/-- The face on a cell can be read off the faces of the board. -/
theorem map_face_tileAt (g : Grid) (p : Pos) :
    (g.tileAt p).toOption.map Tile.face =
      if p.Within g.size then g.faces[p.index g.size]? else none := by
  by_cases h : p.Within g.size
  · have hlt : p.index g.size < g.tiles.size := g.tiles_size ▸ Pos.index_lt h
    have htile : g.tileAt p = .ok g.tiles[p.index g.size] := by
      unfold tileAt slot
      rw [dif_pos h]
      rfl
    rw [if_pos h, htile]
    simp [faces, Except.toOption, hlt]
  · rw [if_neg h, tileAt_of_not_within h]
    rfl

/-- Boards with the same faces have the same tile on a cell, wherever it is shown. -/
theorem SameFaces.tileAt_eq_ok {g h : Grid} (same : SameFaces g h) {p : Pos} {tile : Tile}
    (htile : g.tileAt p = .ok tile) : ∃ moved, h.tileAt p = .ok moved ∧ moved.face = tile.face := by
  have hp := within_of_tileAt_eq_ok htile
  rw [← same.size_eq] at hp
  obtain ⟨moved, hmoved⟩ := tileAt_eq_ok_of_within hp
  refine ⟨moved, hmoved, ?_⟩
  have hfaces : (h.tileAt p).toOption.map Tile.face = (g.tileAt p).toOption.map Tile.face := by
    rw [map_face_tileAt, map_face_tileAt, same.size_eq, same.faces_eq]
  rw [htile, hmoved] at hfaces
  exact Option.some.inj hfaces

/-! ## Uniform lines -/

/-- Whether a line is uniform depends only on the faces along it. -/
theorem isUniform_eq_of_faces (g : Grid) (line : Line) :
    g.isUniform line =
      match (g.tilesOn line).map Tile.face with
      | [] => false
      | first :: rest => rest.all fun face => face.2 == first.2 := by
  unfold isUniform
  cases g.tilesOn line with
  | nil => rfl
  | cons first rest => simp [Tile.face, Function.comp_def]

theorem map_face_tilesOn (g : Grid) (line : Line) :
    (g.tilesOn line).map Tile.face =
      (line.cells g.size).filterMap fun p =>
        if p.Within g.size then g.faces[p.index g.size]? else none := by
  unfold tilesOn
  rw [List.map_filterMap]
  congr 1
  funext p
  exact map_face_tileAt g p

/-- Boards with the same faces have the same uniform lines. -/
theorem SameFaces.uniformLines_eq {g h : Grid} (same : SameFaces g h) :
    h.uniformLines = g.uniformLines := by
  unfold uniformLines
  rw [same.size_eq]
  congr 1
  funext line
  rw [isUniform_eq_of_faces, isUniform_eq_of_faces, map_face_tilesOn, map_face_tilesOn,
    same.size_eq, same.faces_eq]

theorem isSettled_iff {g : Grid} :
    g.isSettled = true ↔ ∀ line ∈ Line.all g.size, g.isUniform line = false := by
  simp [isSettled, uniformLines, List.filter_eq_nil_iff]

/-- Every cell of a uniform line lies on the board. -/
theorem within_of_mem_uniformLines {g : Grid} {line : Line} {p : Pos}
    (hline : line ∈ g.uniformLines) (hp : p ∈ line.cells g.size) : p.Within g.size := by
  have hall : line ∈ Line.all g.size := (List.mem_filter.mp hline).1
  exact (Line.within_iff_of_mem_cells hp).mpr (Line.mem_all.mp hall)

/-- There are no more uniform lines than rows and columns. -/
theorem length_uniformLines_le (g : Grid) : g.uniformLines.length ≤ 2 * g.size :=
  calc g.uniformLines.length
    _ ≤ (Line.all g.size).length := List.length_filter_le _ _
    _ = 2 * g.size := by simp [Line.all, Nat.two_mul]

/-! ## Operations that make and change faces -/

/-- A new board has the size it was asked for, and has given an id to each slot. -/
theorem tabulate_eq_ok {size : Nat} {color : Pos → Color} {g : Grid}
    (h : tabulate size color = .ok g) : g.size = size ∧ g.nextId = size * size := by
  obtain ⟨_, _, h⟩ := bind_eq_ok_iff.mp h
  obtain rfl := pure_eq_ok_iff.mp h
  exact ⟨rfl, rfl⟩

/-- A swap changes neither the size of a board nor the ids still to be given. -/
theorem swap_eq_ok {g h : Grid} {a b : Pos} (heq : g.swap a b = .ok h) :
    h.size = g.size ∧ h.nextId = g.nextId := by
  obtain ⟨i, _, heq⟩ := bind_eq_ok_iff.mp heq
  obtain ⟨j, _, heq⟩ := bind_eq_ok_iff.mp heq
  obtain rfl := pure_eq_ok_iff.mp heq
  exact ⟨rfl, rfl⟩

/-- A respawn on a cell of the board succeeds, keeps the size and spends one id. -/
theorem respawn_eq_ok {g : Grid} {p : Pos} {color : Color}
    {answer : Except OutOfBounds (TileId × Grid)} (hp : p.Within g.size)
    (heq : g.respawn p color = .ok answer) :
    ∃ h, answer = .ok (g.nextId, h) ∧ h.size = g.size ∧ h.nextId = g.nextId + 1 := by
  obtain ⟨i, hi⟩ := slot_eq_ok_of_within hp
  unfold respawn at heq
  rw [hi] at heq
  obtain ⟨nextId, hnext, heq⟩ := bind_eq_ok_iff.mp heq
  obtain rfl := pure_eq_ok_iff.mp heq
  exact ⟨_, rfl, rfl, (Count.add_eq_ok_iff.mp hnext).1.symm⟩

end Grid

end OrbPuzzle
