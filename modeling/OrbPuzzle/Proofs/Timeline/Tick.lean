import Mathlib.Data.List.Induction
import OrbPuzzle.Proofs.Timeline.Course

/-!
# What playing a tick means

A tick is played transition by transition, each writing over what an earlier one wrote, and the
list is thinned out on the way. `play_eq_of_nodup` says what comes of it without following the
order of the work.

* The board: each field of each tile has the value of its last writer, the last transition in the
  list that is active and moves this field of this tile (`writer?`), or its old value if it has
  none.
* The commands: those of the transitions that complete, in list order.
* The timeline: what had not ended before, with the commands taken out that were handed out.

Transitions whose tile is gone count as any other, except that the board is what it would be without
them.
-/

namespace OrbPuzzle

variable {κ : Type}

namespace Transition

/-- The transition writes a field of a tile at a tick: it is active then, and that field of that
tile is what it moves. -/
def WritesAt (u : Transition κ) (tick : Nat) (tile : TileId) (field : Field) : Prop :=
  u.IsActiveAt tick ∧ ∃ m ∈ u.motion, m.tile = tile ∧ m.field = field

instance (u : Transition κ) (tick : Nat) (tile : TileId) (field : Field) :
    Decidable (u.WritesAt tick tile field) :=
  inferInstanceAs (Decidable (_ ∧ _))

/-- The transition comes to its end at a tick: it is active then, and the tick is its last. -/
def CompletesAt (u : Transition κ) (tick : Nat) : Prop := u.IsActiveAt tick ∧ u.stop = tick

instance (u : Transition κ) (tick : Nat) : Decidable (u.CompletesAt tick) :=
  inferInstanceAs (Decidable (_ ∧ _))

/-- The tile that the transition moves, if it moves one, is on the board. -/
def Present (g : Grid) (u : Transition κ) : Prop := ∀ m ∈ u.motion, m.tile ∈ g.ids

instance (g : Grid) (u : Transition κ) : Decidable (u.Present g) :=
  inferInstanceAs (Decidable (∀ m ∈ u.motion, m.tile ∈ g.ids))

variable {u : Transition κ} {c : Course} {tick : Nat} {tile : TileId} {field : Field}

/-- A transition is active at its last tick, since it starts before. -/
theorem completesAt_iff : u.CompletesAt tick ↔ u.stop = tick := by
  constructor
  · exact And.right
  · rintro rfl
    exact ⟨⟨Nat.le_of_lt u.start_lt_stop, Nat.le_refl _⟩, rfl⟩

theorem writesAt_iff_of_course? (h : u.course? = some c) :
    u.WritesAt tick tile field ↔ c.IsActiveAt tick ∧ c.Moves tile field := by
  obtain ⟨m, hm, rfl⟩ := Option.map_eq_some_iff.mp h
  simp [WritesAt, hm, IsActiveAt, Course.IsActiveAt, Course.Moves]

theorem valueAt_of_course? (h : u.course? = some c) (hactive : c.IsActiveAt tick) :
    u.valueAt tick = some (c.valueAt tick) := by
  obtain ⟨m, hm, rfl⟩ := Option.map_eq_some_iff.mp h
  have hactive : u.IsActiveAt tick := hactive
  simp only [valueAt, hm, if_pos hactive]
  rfl

theorem not_writesAt_of_course?_eq_none (h : u.course? = none) : ¬ u.WritesAt tick tile field := by
  rintro ⟨-, m, hm, -⟩
  rw [course?, hm] at h
  cases h

end Transition

@[simp]
theorem Course.face_shift (tick : Nat) (tile : Tile) (c : Course) :
    (c.shift tick tile).face = tile.face := by
  unfold shift
  split
  · exact Tile.face_set _ _ _
  · rfl

namespace Timeline

/-- The last transition in list order that writes a field of a tile when the current tick is played.
-/
def writer? (t : Timeline κ) (tile : TileId) (field : Field) : Option (Transition κ) :=
  (t.active.filter (·.WritesAt t.tick tile field)).getLast?

/-! ## The board -/

theorem face_foldl_shift (tick : Nat) (courses : List Course) (tile : Tile) :
    (courses.foldl (Course.shift tick) tile).face = tile.face := by
  induction courses generalizing tile with
  | nil => rfl
  | cons c rest ih => rw [List.foldl_cons, ih, Course.face_shift]

/-- Along the courses of a list of transitions, a field comes to the value of its last writer. -/
theorem get_foldl_shift_eq (tick : Nat) (active : List (Transition κ)) (tile : Tile)
    (field : Field) :
    match (active.filter (·.WritesAt tick tile.id field)).getLast? with
    | none => ((active.filterMap Transition.course?).foldl (Course.shift tick) tile).get field =
        tile.get field
    | some u => u.valueAt tick =
        some (((active.filterMap Transition.course?).foldl (Course.shift tick) tile).get field) := by
  -- from the end of the list: the last transition either writes the field or can be left out
  induction active using List.reverseRecOn with
  | nil => rfl
  | append_singleton active u ih =>
    rw [List.filter_append, List.filterMap_append, List.foldl_append]
    cases hcourse : u.course? with
    | none =>
      have hsilent : ¬ u.WritesAt tick tile.id field :=
        Transition.not_writesAt_of_course?_eq_none hcourse
      simpa [hcourse, hsilent] using ih
    | some c =>
      have hid := (foldl_shift tick (active.filterMap Transition.course?) tile field).1
      by_cases hwrites : u.WritesAt tick tile.id field
      · obtain ⟨hactive, hmoves⟩ := (Transition.writesAt_iff_of_course? hcourse).mp hwrites
        simp [hcourse, hwrites, Course.get_shift, hid, hactive, hmoves,
          Transition.valueAt_of_course? hcourse hactive]
      · have hother : ¬ (c.IsActiveAt tick ∧ c.Moves tile.id field) :=
          fun hc => hwrites ((Transition.writesAt_iff_of_course? hcourse).mpr hc)
        simpa [hcourse, hwrites, Course.get_shift, hid, hother] using ih

/-- Playing a tick leaves a tile on its cell and does not change its face. Each of its fields comes
to the value of its last writer, or stays. -/
theorem tileAt_animate (t : Timeline κ) {g : Grid} (h : g.ids.Nodup) {p : Pos} {tile : Tile}
    (htile : g.tileAt p = .ok tile) :
    ∃ shown, (t.animate g).tileAt p = .ok shown ∧ shown.face = tile.face ∧
      ∀ field, match t.writer? tile.id field with
        | none => shown.get field = tile.get field
        | some u => u.valueAt t.tick = some (shown.get field) := by
  obtain ⟨shown, hshown⟩ : ∃ shown, (t.animate g).tileAt p = .ok shown := by
    apply Grid.tileAt_eq_ok_of_within
    rw [(t.sameFaces_animate g).size_eq]
    exact Grid.within_of_tileAt_eq_ok htile
  obtain ⟨old, hold, rfl⟩ := t.tileAt_of_animate h hshown
  obtain rfl : tile = old := Except.ok.inj (htile.symm.trans hold)
  exact ⟨_, hshown, face_foldl_shift _ _ _, get_foldl_shift_eq t.tick t.active tile⟩

/-- A transition whose tile is gone writes nothing. -/
theorem writeTo_of_not_present {g : Grid} {u : Transition κ} (tick : Nat) (h : ¬ u.Present g) :
    writeTo tick g u = g := by
  unfold Transition.Present at h
  push Not at h
  obtain ⟨m, hm, habsent⟩ := h
  have hnone : g.tiles.findFinIdx? (·.id == m.tile) = none := by
    rw [Array.findFinIdx?_eq_none_iff]
    intro tile htile hid
    exact habsent (Grid.mem_ids.mpr ⟨tile, htile, by simpa using hid⟩)
  unfold writeTo
  split
  · next m' value hm' _ =>
    obtain rfl : m' = m := Option.some.inj (hm'.symm.trans hm)
    simp only [Grid.write, Grid.modifyTile, hnone]
  · rfl

/-- The board does not depend on the transitions whose tile is gone. -/
theorem animate_filter_present (t : Timeline κ) (g : Grid) :
    animate { t with active := t.active.filter (·.Present g) } g = t.animate g := by
  unfold animate
  obtain ⟨tick, active⟩ := t
  -- writing changes no id, so the same tiles are gone all along
  suffices h : ∀ board, Grid.ids board = g.ids →
      (active.filter (·.Present g)).foldl (writeTo tick) board =
        active.foldl (writeTo tick) board from h g rfl
  induction active with
  | nil => exact fun _ _ => rfl
  | cons u rest ih =>
    intro board hids
    by_cases hpresent : u.Present g
    · rw [List.filter_cons_of_pos (by simpa using hpresent), List.foldl_cons, List.foldl_cons]
      exact ih _ ((sameFaces_writeTo tick board u).ids_eq.trans hids)
    · have habsent : ¬ u.Present board := by
        unfold Transition.Present
        rw [hids]
        exact hpresent
      rw [List.filter_cons_of_neg (by simpa using hpresent), List.foldl_cons,
        writeTo_of_not_present tick habsent]
      exact ih board hids

/-! ## The commands and the timeline -/

theorem due_eq_filterMap_onDone (t : Timeline κ) :
    t.due = (t.active.filter (·.CompletesAt t.tick)).filterMap (·.onDone) := by
  rw [List.filterMap_filter]
  simp only [due, Transition.dueAt, Transition.completesAt_iff, decide_eq_true_eq]

theorem active_played (t : Timeline κ) :
    t.played.active = (t.active.filter fun u => ¬ u.stop < t.tick).map fun u =>
      if u.CompletesAt t.tick then { u with onDone := none } else u := by
  simp only [played, Transition.played, Transition.completesAt_iff, Nat.not_lt]

/-- What playing a tick does, on a board of distinct ids. The board keeps its size and the next id,
and every slot its tile with id and colour; each field of a tile has the value of the last
transition that is active and moves it, or its old value if there is none; and the board is what it
would be without the transitions whose tile is not on it. The commands handed out are those that
transitions which complete now still held, in list order, whether or not their tiles are there.
What had not ended before stays, in order, and only the commands that were handed out are taken out
of it. -/
theorem play_eq_of_nodup (t : Timeline κ) {g : Grid} (h : g.ids.Nodup) :
    ∃ left board handed, t.play g = (left, board, handed) ∧
      board.size = g.size ∧ board.nextId = g.nextId ∧
      (∀ p tile, g.tileAt p = .ok tile →
        ∃ shown, board.tileAt p = .ok shown ∧ shown.id = tile.id ∧ shown.color = tile.color ∧
          ∀ field, match t.writer? tile.id field with
            | none => shown.get field = tile.get field
            | some u => u.valueAt t.tick = some (shown.get field)) ∧
      (play { t with active := t.active.filter (·.Present g) } g).2.1 = board ∧
      handed = (t.active.filter (·.CompletesAt t.tick)).filterMap (·.onDone) ∧
      left.tick = t.tick ∧
      left.active = (t.active.filter fun u => ¬ u.stop < t.tick).map fun u =>
        if u.CompletesAt t.tick then { u with onDone := none } else u := by
  have same := t.sameFaces_animate g
  refine ⟨t.played, t.animate g, t.due, rfl, same.size_eq, same.nextId_eq, ?_,
    t.animate_filter_present g, t.due_eq_filterMap_onDone, rfl, t.active_played⟩
  intro p tile htile
  obtain ⟨shown, hshown, hface, hfields⟩ := t.tileAt_animate h htile
  obtain ⟨hid, hcolor⟩ := Prod.mk.inj hface
  exact ⟨shown, hshown, hid, hcolor, hfields⟩

/-- A board of one orb, whose id is zero. -/
def singleOrb : Grid where
  size := 1
  tiles := Grid.tabulateTiles 1 fun _ => .red
  nextId := 1
  tiles_size := Array.size_ofFn

/-- A motion of the scale of a tile from zero to one. -/
def growth (tile : TileId) : Motion where
  tile := tile
  field := .scale
  source := .zero false
  target := .one
  easing := .linear

/-- Of four transitions one has passed. Two move the scale of the orb, and of these the first
completes now. The last is for a tile that is gone, and completes now too. -/
def contestedTick : Timeline Nat where
  tick := 4
  active := [
    ⟨1, 3, some (growth 0), some 5, by decide⟩, ⟨2, 4, some (growth 0), some 6, by decide⟩,
    ⟨0, 8, some (growth 0), some 7, by decide⟩, ⟨3, 4, some (growth 9), some 8, by decide⟩]

/-- The second of the two motions has its way, and both transitions that complete hand out their
commands. -/
theorem play_eq_of_nodup_contestedTick :
    singleOrb.ids.Nodup ∧ ∃ left board handed, contestedTick.play singleOrb = (left, board, handed) ∧
      (∃ shown, board.tileAt ⟨0, 0⟩ = .ok shown ∧ shown.scale = Binary.one.half) ∧
      handed = [6, 8] ∧ left.active.map (·.onDone) = [none, some 7, none] := by
  have hids : singleOrb.ids.Nodup := by decide +kernel
  obtain ⟨left, board, handed, hplay, -, -, htiles, -, hhanded, -, hactive⟩ :=
    contestedTick.play_eq_of_nodup hids
  refine ⟨hids, left, board, handed, hplay, ?_, ?_, ?_⟩
  · obtain ⟨tile, htile, hid⟩ := exists_of_any_toOption (x := singleOrb.tileAt ⟨0, 0⟩)
      (fun tile => decide (tile.id = 0)) (by decide +kernel)
    obtain ⟨shown, hshown, -, -, hfields⟩ := htiles ⟨0, 0⟩ tile htile
    have hwriter : contestedTick.writer? 0 .scale =
        some ⟨0, 8, some (growth 0), some 7, by decide⟩ := by decide +kernel
    have hscale := hfields .scale
    rw [show tile.id = 0 from of_decide_eq_true hid, hwriter] at hscale
    have hvalue : (⟨0, 8, some (growth 0), some 7, by decide⟩ : Transition Nat).valueAt 4 =
        some Binary.one.half := by decide +kernel
    exact ⟨shown, hshown, Option.some.inj (hscale.symm.trans hvalue)⟩
  · rw [hhanded]
    decide +kernel
  · rw [hactive]
    decide +kernel

end Timeline

end OrbPuzzle
