import OrbPuzzle.Proofs.Timeline.Pending

/-!
# Playing a tick again

A tick may be played any number of times before the clock moves on. Only the first time matters:
from then on nothing is handed out, and neither the timeline nor the board changes (`play_again`).
This holds on every board, also on one on which several tiles have one id.

The board is the harder part. A write names a tile by its id and goes to the first tile with that
id, and writing changes no id, so a write goes to the same place whatever was written before
(`getElem?_write`). Hence two writes to one field of one id overwrite each other, and all others
commute. A write that is made later anyway can therefore be made once more at the beginning
(`foldl_writeTo_of_mem`), and playing a tick twice does so with all of its writes.
-/

namespace OrbPuzzle

/-! ## Writing by id -/

namespace Grid

/-- The place in storage of the first tile with an id. -/
def place? (g : Grid) (id : TileId) : Option Nat := g.tiles.findIdx? (·.id == id)

/-- The place of an id can be read off the faces. -/
theorem place?_eq_findIdx?_faces (g : Grid) (id : TileId) :
    g.place? id = g.faces.findIdx? (·.1 == id) := by
  rw [faces, Array.findIdx?_map]
  rfl

/-- Two ids never have one place. -/
theorem eq_of_place?_eq_some {g : Grid} {id other : TileId} {i : Nat} (hid : g.place? id = some i)
    (hother : g.place? other = some i) : id = other := by
  obtain ⟨_, hid, -⟩ := Array.findIdx?_eq_some_iff_getElem.mp hid
  obtain ⟨_, hother, -⟩ := Array.findIdx?_eq_some_iff_getElem.mp hother
  exact (beq_iff_eq.mp hid).symm.trans (beq_iff_eq.mp hother)

section Write

variable (g : Grid) (id : TileId) (field : Field) (value : Single)

@[simp]
theorem size_write : (g.write id field value).size = g.size :=
  (g.sameFaces_write id field value).size_eq

@[simp]
theorem nextId_write : (g.write id field value).nextId = g.nextId :=
  (g.sameFaces_write id field value).nextId_eq

@[simp]
theorem place?_write (other : TileId) : (g.write id field value).place? other = g.place? other := by
  rw [place?_eq_findIdx?_faces, place?_eq_findIdx?_faces,
    (g.sameFaces_write id field value).faces_eq]

/-- A write goes to the first tile with the id, and to no other place. -/
theorem getElem?_write (i : Nat) :
    (g.write id field value).tiles[i]? =
      g.tiles[i]?.map fun tile => if g.place? id = some i then tile.set field value else tile := by
  unfold write modifyTile place?
  rw [Array.findIdx?_eq_map_findFinIdx?_val]
  cases g.tiles.findFinIdx? (·.id == id) with
  | none => simp
  | some j =>
    simp only [setSlot, Array.getElem?_set, Option.map_some, Option.some.injEq]
    by_cases hij : j.val = i
    · subst hij
      simp
    · simp [hij]

/-- Of two writes to one field of one id the second stays. -/
theorem write_write_self (second : Single) :
    (g.write id field value).write id field second = g.write id field second := by
  apply eq_of_getElem?
  · simp only [size_write]
  · simp only [nextId_write]
  · intro i
    rw [getElem?_write, getElem?_write, getElem?_write, place?_write, Option.map_map]
    congr 1
    funext tile
    by_cases hplace : g.place? id = some i <;> simp [hplace]

/-- Writes to different ids or to different fields can be exchanged. -/
theorem write_write_comm {id other : TileId} {field otherField : Field} (otherValue : Single)
    (h : id ≠ other ∨ field ≠ otherField) :
    (g.write id field value).write other otherField otherValue =
      (g.write other otherField otherValue).write id field value := by
  apply eq_of_getElem?
  · simp only [size_write]
  · simp only [nextId_write]
  · intro i
    rw [getElem?_write, getElem?_write, getElem?_write, getElem?_write, place?_write, place?_write,
      Option.map_map, Option.map_map]
    congr 1
    funext tile
    by_cases hid : g.place? id = some i
    · by_cases hother : g.place? other = some i
      · -- both writes go to this tile, so they have one id and the fields differ
        have hfield : field ≠ otherField := by
          rcases h with hne | hfield
          · exact absurd (eq_of_place?_eq_some hid hother) hne
          · exact hfield
        simp [hid, hother, Tile.set_set_comm tile value otherValue hfield]
      · simp [hid, hother]
    · simp [hid]

end Write

end Grid

/-! ## Writing a tick -/

namespace Timeline

variable {κ : Type}

/-- A transition writes one value to one field of one id, the same on every board, or nothing. -/
theorem writeTo_cases (tick : Nat) (u : Transition κ) :
    (∀ g, writeTo tick g u = g) ∨
      ∃ id field value, ∀ g, writeTo tick g u = g.write id field value := by
  unfold writeTo
  cases u.motion with
  | none => exact .inl fun _ => rfl
  | some m =>
    cases u.valueAt tick with
    | none => exact .inl fun _ => rfl
    | some value => exact .inr ⟨m.tile, m.field, value, fun _ => rfl⟩

theorem writeTo_writeTo_self (tick : Nat) (g : Grid) (u : Transition κ) :
    writeTo tick (writeTo tick g u) u = writeTo tick g u := by
  rcases writeTo_cases tick u with hsilent | ⟨id, field, value, hwrite⟩
  · rw [hsilent, hsilent]
  · rw [hwrite, hwrite, Grid.write_write_self]

/-- The second of two transitions overwrites what the first one has written, or the order of the two
does not matter. -/
theorem writeTo_writeTo (tick : Nat) (g : Grid) (u v : Transition κ) :
    writeTo tick (writeTo tick g u) v = writeTo tick g v ∨
      writeTo tick (writeTo tick g u) v = writeTo tick (writeTo tick g v) u := by
  rcases writeTo_cases tick u with hsilent | ⟨id, field, value, hu⟩
  · exact .inl (by rw [hsilent])
  · rcases writeTo_cases tick v with hsilent | ⟨other, otherField, otherValue, hv⟩
    · exact .inr (by rw [hsilent, hsilent])
    · rw [hu, hv, hv, hu]
      by_cases hsame : id = other ∧ field = otherField
      · obtain ⟨rfl, rfl⟩ := hsame
        exact .inl (g.write_write_self id field value otherValue)
      · exact .inr (g.write_write_comm value otherValue (Decidable.not_and_iff_or_not.mp hsame))

/-- A transition whose turn is still to come may write once more before all others. -/
theorem foldl_writeTo_of_mem {tick : Nat} {active : List (Transition κ)} {u : Transition κ}
    (h : u ∈ active) (g : Grid) :
    active.foldl (writeTo tick) (writeTo tick g u) = active.foldl (writeTo tick) g := by
  induction active generalizing g with
  | nil => cases h
  | cons v rest ih =>
    rw [List.foldl_cons, List.foldl_cons]
    rcases List.mem_cons.mp h with rfl | hrest
    · rw [writeTo_writeTo_self]
    · rcases writeTo_writeTo tick g u v with hover | hcomm
      · rw [hover]
      · rw [hcomm, ih hrest]

theorem foldl_writeTo_of_subset {tick : Nat} {active earlier : List (Transition κ)}
    (h : ∀ u ∈ earlier, u ∈ active) (g : Grid) :
    active.foldl (writeTo tick) (earlier.foldl (writeTo tick) g) =
      active.foldl (writeTo tick) g := by
  induction earlier generalizing g with
  | nil => rfl
  | cons u rest ih =>
    rw [List.foldl_cons, ih (fun v hv => h v (List.mem_cons_of_mem _ hv)),
      foldl_writeTo_of_mem (h u List.mem_cons_self)]

theorem animate_animate (t : Timeline κ) (g : Grid) : t.animate (t.animate g) = t.animate g :=
  foldl_writeTo_of_subset (fun _ hu => hu) g

/-! ## The timeline that is left -/

/-- Handing out its command does not change what a transition writes. -/
theorem writeTo_played (tick : Nat) (g : Grid) (u : Transition κ) :
    writeTo tick g (u.played tick) = writeTo tick g u := by
  unfold Transition.played
  split <;> rfl

/-- A transition that has passed writes nothing. -/
theorem writeTo_of_stop_lt {tick : Nat} {u : Transition κ} (h : u.stop < tick) (g : Grid) :
    writeTo tick g u = g := by
  have hpassed : ¬ u.IsActiveAt tick := fun hactive => Nat.not_le_of_lt h hactive.2
  unfold writeTo Transition.valueAt
  cases u.motion with
  | none => rfl
  | some m => simp only [if_neg hpassed]

/-- What is dropped when a tick is played is not missed when it is played again. -/
theorem animate_played (t : Timeline κ) (g : Grid) : t.played.animate g = t.animate g := by
  unfold animate played
  rw [List.foldl_map, List.foldl_filter]
  congr 1
  funext board u
  by_cases hstop : t.tick ≤ u.stop
  · simp only [hstop, decide_true, if_true, writeTo_played]
  · simp only [hstop, decide_false, Bool.false_eq_true, if_false,
      writeTo_of_stop_lt (Nat.lt_of_not_le hstop)]

theorem played_played (t : Timeline κ) : t.played.played = t.played := by
  unfold played
  simp [List.filter_map, Function.comp_def]

theorem due_played (t : Timeline κ) : t.played.due = [] := by
  have hdue := t.dueAt_played (Nat.le_refl _)
  rw [if_pos rfl] at hdue
  exact hdue

/-- Playing a tick again, before the clock moves on, hands out nothing and leaves the timeline and
the board exactly as the first time has left them. The transitions may be any, also several for one
field or for tiles that are gone, and the tiles of the board may share their ids. -/
theorem play_again (t : Timeline κ) (g : Grid) :
    ∃ left board handed, t.play g = (left, board, handed) ∧
      left.play board = (left, board, []) := by
  refine ⟨t.played, t.animate g, t.due, rfl, ?_⟩
  rw [play, played_played, animate_played, animate_animate, due_played]

end Timeline

end OrbPuzzle
