import Mathlib.Data.List.Nodup
import OrbPuzzle.Proofs.Grid.Faces

/-!
# Tiles by id

Animations name the tile they write to by its id. As long as no two tiles of a board have one id,
such a write is a change of one tile, wherever it stands, and leaves every other tile alone
(`tiles_write`). The two operations that move and make tiles keep ids apart: a swap only rearranges
them (`ids_swap_perm`), and a respawn replaces one by the next id to be given (`respawn_cases`).
-/

namespace OrbPuzzle.Grid

/-- The ids of the tiles, in storage order. -/
def ids (g : Grid) : List TileId := g.tiles.toList.map Tile.id

theorem mem_ids {g : Grid} {id : TileId} : id ∈ g.ids ↔ ∃ tile ∈ g.tiles, tile.id = id := by
  simp [ids]

/-- The ids are part of the faces. -/
theorem ids_eq_map_faces (g : Grid) : g.ids = g.faces.toList.map Prod.fst := by
  simp [ids, faces, Tile.face, Function.comp_def]

theorem SameFaces.ids_eq {g h : Grid} (same : SameFaces g h) : h.ids = g.ids := by
  rw [ids_eq_map_faces, ids_eq_map_faces, same.faces_eq]

/-- In a board of distinct ids, an id tells the place. -/
theorem index_eq_of_id_eq {g : Grid} (h : g.ids.Nodup) {i j : Nat} (hi : i < g.tiles.size)
    (hj : j < g.tiles.size) (heq : g.tiles[i].id = g.tiles[j].id) : i = j := by
  have hi' : i < g.ids.length := by simpa [ids] using hi
  have hj' : j < g.ids.length := by simpa [ids] using hj
  have heq' : g.ids[i] = g.ids[j] := by simpa [ids] using heq
  exact (List.Nodup.getElem_inj_iff h).mp heq'

/-! ## Cells -/

/-- The place in storage tells the cell. -/
theorem eq_of_index_eq {size : Nat} {p q : Pos} (hp : p.Within size) (hq : q.Within size)
    (h : p.index size = q.index size) : p = q := by
  rw [← Pos.ofIndex_index hp, h, Pos.ofIndex_index hq]

theorem slot_eq_ok {g : Grid} {p : Pos} {i : Fin g.tiles.size} (h : g.slot p = .ok i) :
    i.val = p.index g.size := by
  unfold slot at h
  split at h
  · cases h
    rfl
  · cases h

/-- The tile on a cell is the one at its place in storage. -/
theorem tileAt_eq_ok_iff {g : Grid} {p : Pos} {tile : Tile} :
    g.tileAt p = .ok tile ↔ p.Within g.size ∧ g.tiles[p.index g.size]? = some tile := by
  constructor
  · intro h
    obtain ⟨i, hi, h⟩ := bind_eq_ok_iff.mp h
    obtain rfl := pure_eq_ok_iff.mp h
    rw [← slot_eq_ok hi]
    exact ⟨within_of_slot_eq_ok hi, Array.getElem?_eq_getElem i.isLt⟩
  · rintro ⟨hp, h⟩
    obtain ⟨i, hi⟩ := slot_eq_ok_of_within hp
    rw [← slot_eq_ok hi, Array.getElem?_eq_getElem i.isLt] at h
    obtain rfl := Option.some.inj h
    exact bind_eq_ok_iff.mpr ⟨i, hi, rfl⟩

/-- In a board of distinct ids, an id tells the cell. -/
theorem eq_of_id_eq {g : Grid} (h : g.ids.Nodup) {p q : Pos} {tile other : Tile}
    (hp : g.tileAt p = .ok tile) (hq : g.tileAt q = .ok other) (heq : tile.id = other.id) :
    p = q := by
  obtain ⟨hwithin, htile⟩ := tileAt_eq_ok_iff.mp hp
  obtain ⟨hwithin', hother⟩ := tileAt_eq_ok_iff.mp hq
  obtain ⟨hi, rfl⟩ := Array.getElem?_eq_some_iff.mp htile
  obtain ⟨hj, rfl⟩ := Array.getElem?_eq_some_iff.mp hother
  exact eq_of_index_eq hwithin hwithin' (index_eq_of_id_eq h hi hj heq)

/-- A tile on a cell is a tile of the board. -/
theorem mem_tiles_of_tileAt {g : Grid} {p : Pos} {tile : Tile} (h : g.tileAt p = .ok tile) :
    tile ∈ g.tiles := by
  obtain ⟨i, -, h⟩ := bind_eq_ok_iff.mp h
  obtain rfl := pure_eq_ok_iff.mp h
  exact Array.getElem_mem i.isLt

theorem id_mem_ids_of_tileAt {g : Grid} {p : Pos} {tile : Tile} (h : g.tileAt p = .ok tile) :
    tile.id ∈ g.ids :=
  mem_ids.mpr ⟨tile, mem_tiles_of_tileAt h, rfl⟩

/-! ## Making a board -/

/-- A board that was just made has given the ids of its slots in storage order. -/
theorem ids_tabulate {size : Nat} {color : Pos → Color} {g : Grid}
    (h : tabulate size color = .ok g) : g.ids = List.range (size * size) := by
  obtain ⟨_, -, h⟩ := bind_eq_ok_iff.mp h
  obtain rfl := pure_eq_ok_iff.mp h
  apply List.ext_getElem
  · simp [ids, tabulateTiles]
  · intro i hi _
    simp [ids, tabulateTiles]

/-- Each tile of a board that was just made rests on its cell. -/
theorem tileAt_tabulate {size : Nat} {color : Pos → Color} {g : Grid}
    (h : tabulate size color = .ok g) {p : Pos} {tile : Tile} (htile : g.tileAt p = .ok tile) :
    ∃ id, tile = restingTile size id p (color p) := by
  obtain ⟨_, -, h⟩ := bind_eq_ok_iff.mp h
  obtain rfl := pure_eq_ok_iff.mp h
  obtain ⟨hp, htile⟩ := tileAt_eq_ok_iff.mp htile
  obtain ⟨hi, rfl⟩ := Array.getElem?_eq_some_iff.mp htile
  refine ⟨p.index size, ?_⟩
  simp only [tabulateTiles_eq, Array.getElem_ofFn, Pos.ofIndex_index hp]

/-- A board of random colours is one of the boards with given colours. -/
theorem random_eq_ok {size : Nat} {generator after : Generator} {g : Grid}
    (h : random size generator = .ok (g, after)) : ∃ color, tabulate size color = .ok g := by
  obtain ⟨count, -, h⟩ := bind_eq_ok_iff.mp h
  obtain ⟨grid, hgrid, h⟩ := bind_eq_ok_iff.mp h
  obtain ⟨rfl, -⟩ := Prod.mk.inj (pure_eq_ok_iff.mp h)
  exact ⟨_, hgrid⟩

/-! ## Writing -/

/-- A write changes the tile with the id and no other. -/
theorem tiles_write {g : Grid} (h : g.ids.Nodup) (id : TileId) (field : Field) (value : Single) :
    (g.write id field value).tiles =
      g.tiles.map fun tile => if tile.id = id then tile.set field value else tile := by
  unfold write modifyTile
  split
  · next hnone =>
    apply Array.ext
    · rw [Array.size_map]
    · intro j hj _
      have hother : ¬ g.tiles[j].id = id := by
        simpa using Array.findFinIdx?_eq_none_iff.mp hnone g.tiles[j] (Array.getElem_mem hj)
      rw [Array.getElem_map, if_neg hother]
  · next i hi =>
    have hid : g.tiles[i.val].id = id := by simpa using (Array.findFinIdx?_eq_some_iff.mp hi).1
    apply Array.ext
    · rw [Array.size_map]
      exact Array.size_set i.isLt
    · intro j hj hj'
      rw [Array.size_map] at hj'
      rw [Array.getElem_map]
      simp only [setSlot, Array.getElem_set, Fin.getElem_fin]
      by_cases hij : i.val = j
      · subst hij
        rw [if_pos rfl, if_pos hid]
      · have hother : ¬ g.tiles[j].id = id := by
          intro hj
          exact hij (index_eq_of_id_eq h i.isLt hj' (hid.trans hj.symm))
        rw [if_neg hij, if_neg hother]

/-! ## Moving and making tiles -/

/-- A swap rearranges the tiles. -/
theorem tiles_swap_perm {g h : Grid} {a b : Pos} (heq : g.swap a b = .ok h) :
    h.tiles.Perm g.tiles := by
  obtain ⟨i, _, heq⟩ := bind_eq_ok_iff.mp heq
  obtain ⟨j, _, heq⟩ := bind_eq_ok_iff.mp heq
  obtain rfl := pure_eq_ok_iff.mp heq
  exact Array.swap_perm _ _

theorem ids_swap_perm {g h : Grid} {a b : Pos} (heq : g.swap a b = .ok h) :
    h.ids.Perm g.ids :=
  (Array.perm_iff_toList_perm.mp (tiles_swap_perm heq)).map Tile.id

/-- After a swap each of the two cells has the tile of the other, and every other cell its own. -/
theorem tileAt_of_swap {g h : Grid} {a b p : Pos} {tile : Tile} (heq : g.swap a b = .ok h)
    (htile : h.tileAt p = .ok tile) :
    p = a ∧ g.tileAt b = .ok tile ∨ p = b ∧ g.tileAt a = .ok tile ∨
      p ≠ a ∧ p ≠ b ∧ g.tileAt p = .ok tile := by
  obtain ⟨i, hi, heq⟩ := bind_eq_ok_iff.mp heq
  obtain ⟨j, hj, heq⟩ := bind_eq_ok_iff.mp heq
  obtain rfl := pure_eq_ok_iff.mp heq
  obtain ⟨hp, htile⟩ := tileAt_eq_ok_iff.mp htile
  replace hp : p.Within g.size := hp
  have hswapped : (if p.index g.size = j then some g.tiles[i]
      else if p.index g.size = i then some g.tiles[j] else g.tiles[p.index g.size]?) =
        some tile := by
    simpa [Array.getElem?_swap, eq_comm] using htile
  split at hswapped
  · next hindex =>
    rw [slot_eq_ok hj] at hindex
    refine .inr (.inl ⟨eq_of_index_eq hp (within_of_slot_eq_ok hj) hindex, ?_⟩)
    exact bind_eq_ok_iff.mpr ⟨i, hi, congrArg Except.ok (Option.some.inj hswapped)⟩
  · next hindexb =>
    split at hswapped
    · next hindex =>
      rw [slot_eq_ok hi] at hindex
      refine .inl ⟨eq_of_index_eq hp (within_of_slot_eq_ok hi) hindex, ?_⟩
      exact bind_eq_ok_iff.mpr ⟨j, hj, congrArg Except.ok (Option.some.inj hswapped)⟩
    · next hindexa =>
      rw [slot_eq_ok hi] at hindexa
      rw [slot_eq_ok hj] at hindexb
      refine .inr (.inr ⟨?_, ?_, tileAt_eq_ok_iff.mpr ⟨hp, hswapped⟩⟩)
      · rintro rfl
        exact hindexa rfl
      · rintro rfl
        exact hindexb rfl

/-- A swap puts the tile of each of the two cells on the other one. -/
theorem tileAt_swap {g h : Grid} {a b : Pos} {first second : Tile} (heq : g.swap a b = .ok h)
    (hne : a ≠ b) (hfirst : g.tileAt a = .ok first) (hsecond : g.tileAt b = .ok second) :
    h.tileAt a = .ok second ∧ h.tileAt b = .ok first := by
  have hsize := (swap_eq_ok heq).1
  obtain ⟨left, hleft⟩ := tileAt_eq_ok_of_within (hsize ▸ within_of_tileAt_eq_ok hfirst)
  obtain ⟨right, hright⟩ := tileAt_eq_ok_of_within (hsize ▸ within_of_tileAt_eq_ok hsecond)
  constructor
  · obtain ⟨-, hcame⟩ | ⟨hab, -⟩ | ⟨haa, -⟩ := tileAt_of_swap heq hleft
    · rw [hleft, ← hcame, hsecond]
    · exact absurd hab hne
    · exact absurd rfl haa
  · obtain ⟨hba, -⟩ | ⟨-, hcame⟩ | ⟨-, hbb, -⟩ := tileAt_of_swap heq hright
    · exact absurd hba.symm hne
    · rw [hright, ← hcame, hfirst]
    · exact absurd rfl hbb

theorem tileAt_swap_of_ne {g h : Grid} {a b p : Pos} {tile : Tile} (heq : g.swap a b = .ok h)
    (ha : p ≠ a) (hb : p ≠ b) (htile : g.tileAt p = .ok tile) : h.tileAt p = .ok tile := by
  have hsize := (swap_eq_ok heq).1
  obtain ⟨kept, hkept⟩ := tileAt_eq_ok_of_within (hsize ▸ within_of_tileAt_eq_ok htile)
  obtain ⟨hpa, -⟩ | ⟨hpb, -⟩ | ⟨-, -, hcame⟩ := tileAt_of_swap heq hkept
  · exact absurd hpa ha
  · exact absurd hpb hb
  · rw [hkept, ← hcame, htile]

/-- On a cell that the board does not have, a respawn fails and changes nothing. Elsewhere it puts a
new tile on its cell, with the next id. -/
theorem respawn_cases {g : Grid} {p : Pos} {color : Color}
    {answer : Except OutOfBounds (TileId × Grid)} (heq : g.respawn p color = .ok answer) :
    (¬ p.Within g.size ∧ ∃ e, answer = .error e) ∨
      ∃ (i : Fin g.tiles.size) (h : Grid), g.slot p = .ok i ∧ answer = .ok (g.nextId, h) ∧
        h.size = g.size ∧ h.nextId = g.nextId + 1 ∧
        h.tiles = g.tiles.set i (restingTile g.size g.nextId p color) i.isLt := by
  unfold respawn at heq
  cases hslot : g.slot p with
  | error e =>
    rw [hslot] at heq
    cases heq
    refine .inl ⟨fun hp => ?_, e, rfl⟩
    obtain ⟨i, hi⟩ := slot_eq_ok_of_within hp
    cases hslot.symm.trans hi
  | ok i =>
    rw [hslot] at heq
    obtain ⟨nextId, hnext, heq⟩ := bind_eq_ok_iff.mp heq
    obtain rfl := pure_eq_ok_iff.mp heq
    exact .inr ⟨i, _, rfl, rfl, rfl, (Count.add_eq_ok_iff.mp hnext).1.symm, rfl⟩

/-- A tile that is put on a cell stands there, and on the other cells stand the tiles that were
there. -/
theorem tileAt_of_set {g h : Grid} {p q : Pos} {i : Fin g.tiles.size} {added tile : Tile}
    (hslot : g.slot p = .ok i) (hsize : h.size = g.size)
    (htiles : h.tiles = g.tiles.set i added i.isLt) (htile : h.tileAt q = .ok tile) :
    q = p ∧ tile = added ∨ q ≠ p ∧ g.tileAt q = .ok tile := by
  obtain ⟨hq, htile⟩ := tileAt_eq_ok_iff.mp htile
  rw [htiles, hsize, Array.getElem?_set, slot_eq_ok hslot] at htile
  rw [hsize] at hq
  by_cases hqp : q = p
  · subst hqp
    rw [if_pos rfl] at htile
    exact .inl ⟨rfl, (Option.some.inj htile).symm⟩
  · have hindex : p.index g.size ≠ q.index g.size :=
      fun hindex => hqp (eq_of_index_eq hq (within_of_slot_eq_ok hslot) hindex.symm)
    rw [if_neg hindex] at htile
    exact .inr ⟨hqp, tileAt_eq_ok_iff.mpr ⟨hq, htile⟩⟩

/-- A respawn puts a tile with the next id in one place of storage. -/
theorem tiles_of_respawn {g h : Grid} {p : Pos} {color : Color} {tile : Tile}
    (heq : g.respawn p color = .ok (.ok (g.nextId, h))) (htile : h.tileAt p = .ok tile) :
    tile.id = g.nextId ∧ h.size = g.size ∧ h.nextId = g.nextId + 1 ∧
      ∃ i : Fin g.tiles.size, h.tiles = g.tiles.set i tile i.isLt := by
  obtain ⟨-, e, herror⟩ | ⟨i, h', hslot, hok, hsize, hnextId, htiles⟩ := respawn_cases heq
  · cases herror
  · cases hok
    obtain ⟨-, rfl⟩ | ⟨hne, -⟩ := tileAt_of_set hslot hsize htiles htile
    · exact ⟨rfl, hsize, hnextId, i, htiles⟩
    · exact absurd rfl hne

end OrbPuzzle.Grid
