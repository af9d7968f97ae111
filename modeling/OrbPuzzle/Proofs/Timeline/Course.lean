import OrbPuzzle.Proofs.Grid.Identity
import OrbPuzzle.Proofs.Timeline.Pending

/-!
# Courses

What a timeline does to the board is told by its courses: the motions in progress, each with its
span, in list order. Commands come and go without touching them. A tick moves every tile on its own
(`tiles_animate`): the courses of the tile's id that are active write to it one after the other, so
each of its fields ends up with the value of the last course that moves it (`foldl_shift`).
-/

namespace OrbPuzzle

/-- A motion and the span over which it runs. -/
structure Course where
  start : Nat
  stop : Nat
  motion : Motion
deriving DecidableEq

namespace Course

/-- Whether a tick lies in the span, its two ends included. -/
def IsActiveAt (c : Course) (tick : Nat) : Prop := c.start ≤ tick ∧ tick ≤ c.stop

/-- Whether it is this field of this tile that a course moves. -/
def Moves (c : Course) (tile : TileId) (field : Field) : Prop :=
  c.motion.tile = tile ∧ c.motion.field = field

instance (c : Course) (tick : Nat) : Decidable (c.IsActiveAt tick) :=
  inferInstanceAs (Decidable (_ ∧ _))

instance (c : Course) (tile : TileId) (field : Field) : Decidable (c.Moves tile field) :=
  inferInstanceAs (Decidable (_ ∧ _))

/-- The value that a course gives its field at a tick of its span. -/
def valueAt (c : Course) (tick : Nat) : Single :=
  c.motion.valueAt (Binary.ofNat (tick - c.start) / Binary.ofNat (c.stop - c.start))

/-- The tile after a course has written to it at a tick, if it is active and the tile is its own. -/
def shift (tick : Nat) (tile : Tile) (c : Course) : Tile :=
  if c.IsActiveAt tick ∧ c.motion.tile = tile.id then tile.set c.motion.field (c.valueAt tick)
  else tile

@[simp]
theorem id_shift (tick : Nat) (tile : Tile) (c : Course) : (c.shift tick tile).id = tile.id := by
  unfold shift
  split
  · exact Tile.id_set _ _ _
  · rfl

theorem get_shift (tick : Nat) (tile : Tile) (c : Course) (field : Field) :
    (c.shift tick tile).get field =
      if c.IsActiveAt tick ∧ c.Moves tile.id field then c.valueAt tick else tile.get field := by
  unfold shift Moves
  by_cases hactive : c.IsActiveAt tick ∧ c.motion.tile = tile.id
  · rw [if_pos hactive]
    by_cases hfield : c.motion.field = field
    · rw [if_pos ⟨hactive.1, hactive.2, hfield⟩, hfield, Tile.get_set_self]
    · rw [if_neg (fun h => hfield h.2.2), Tile.get_set_of_ne _ _ (Ne.symm hfield)]
  · rw [if_neg hactive, if_neg (fun h => hactive ⟨h.1, h.2.1⟩)]

end Course

variable {κ : Type}

/-- The course of a transition; one that only marks time has none. -/
def Transition.course? (t : Transition κ) : Option Course := t.motion.map (⟨t.start, t.stop, ·⟩)

/-- Playing a tick changes no course. -/
theorem Transition.course?_played (t : Transition κ) (tick : Nat) :
    (t.played tick).course? = t.course? := by
  unfold played
  split <;> rfl

/-- A transition that was made with a motion has its course. -/
theorem Transition.course?_of_make {start stop : Nat} {motion : Motion} {onDone : Option κ}
    {t : Transition κ} (h : make start stop (some motion) onDone = .ok t) :
    t.course? = some ⟨start, stop, motion⟩ := by
  obtain ⟨hstart, hstop, hmotion, -⟩ := make_eq_ok h
  rw [course?, hmotion, hstart, hstop]
  rfl

theorem Transition.stop_of_course? {t : Transition κ} {c : Course} (h : t.course? = some c) :
    c.stop = t.stop := by
  obtain ⟨motion, -, rfl⟩ := Option.map_eq_some_iff.mp h
  rfl

namespace Timeline

/-- The courses in progress, in list order. -/
def courses (t : Timeline κ) : List Course := t.active.filterMap Transition.course?

@[simp]
theorem courses_append (t : Timeline κ) (added : List (Transition κ)) :
    (t.append added).courses = t.courses ++ added.filterMap Transition.course? := by
  simp only [courses, active_append, List.filterMap_append]

/-- Every course lasts for a while. -/
theorem start_lt_stop_of_mem_courses {t : Timeline κ} {c : Course} (h : c ∈ t.courses) :
    c.start < c.stop := by
  obtain ⟨u, -, hu⟩ := List.mem_filterMap.mp h
  obtain ⟨m, -, rfl⟩ := Option.map_eq_some_iff.mp hu
  exact u.start_lt_stop

theorem courses_of_isIdle {t : Timeline κ} (h : t.isIdle = true) : t.courses = [] := by
  unfold isIdle at h
  rw [courses, List.isEmpty_iff.mp h, List.filterMap_nil]

/-- After a tick has been played, the courses that end then or later are in progress. -/
theorem courses_played (t : Timeline κ) :
    t.played.courses = t.courses.filter (t.tick ≤ ·.stop) := by
  unfold courses played
  rw [List.filterMap_map, List.filterMap_filter, List.filter_filterMap]
  congr 1
  funext u
  simp only [Function.comp_apply, Transition.course?_played]
  cases hcourse : u.course? with
  | none => simp
  | some c => simp [Option.filter_some, Transition.stop_of_course? hcourse]

/-! ## Playing a tick -/

/-- A transition writes to the board what its course says. -/
theorem tiles_writeTo (tick : Nat) {g : Grid} (h : g.ids.Nodup) (u : Transition κ) :
    (writeTo tick g u).tiles =
      g.tiles.map fun tile => u.course?.toList.foldl (Course.shift tick) tile := by
  obtain ⟨start, stop, motion, onDone, hspan⟩ := u
  cases motion with
  | none => simp [writeTo, Transition.course?]
  | some m =>
    by_cases hactive : start ≤ tick ∧ tick ≤ stop
    · have hvalue : (⟨start, stop, some m, onDone, hspan⟩ : Transition κ).valueAt tick =
          some (Course.valueAt ⟨start, stop, m⟩ tick) := if_pos hactive
      simp only [writeTo, hvalue, Grid.tiles_write h]
      simp [Transition.course?, Course.shift, Course.IsActiveAt, hactive, eq_comm]
    · have hvalue : (⟨start, stop, some m, onDone, hspan⟩ : Transition κ).valueAt tick = none :=
        if_neg hactive
      simp only [writeTo, hvalue]
      simp [Transition.course?, Course.shift, Course.IsActiveAt, hactive]

/-- Playing a tick moves every tile on its own, along the courses that are its own. -/
theorem tiles_animate (t : Timeline κ) {g : Grid} (h : g.ids.Nodup) :
    (t.animate g).tiles = g.tiles.map fun tile => t.courses.foldl (Course.shift t.tick) tile := by
  unfold animate courses
  induction t.active generalizing g with
  | nil => simp
  | cons u rest ih =>
    have hids : (writeTo t.tick g u).ids.Nodup := by
      rw [(sameFaces_writeTo t.tick g u).ids_eq]
      exact h
    rw [List.foldl_cons, ih hids, tiles_writeTo _ h, Array.map_map]
    congr 1
    funext tile
    cases hcourse : u.course? <;> simp [hcourse]

/-- Playing a tick leaves every tile on its cell. -/
theorem tileAt_of_animate (t : Timeline κ) {g : Grid} (h : g.ids.Nodup) {p : Pos} {tile : Tile}
    (htile : (t.animate g).tileAt p = .ok tile) :
    ∃ old, g.tileAt p = .ok old ∧ tile = t.courses.foldl (Course.shift t.tick) old := by
  obtain ⟨hp, htile⟩ := Grid.tileAt_eq_ok_iff.mp htile
  rw [(t.sameFaces_animate g).size_eq] at hp htile
  rw [tiles_animate t h, Array.getElem?_map] at htile
  obtain ⟨old, hold, rfl⟩ := Option.map_eq_some_iff.mp htile
  exact ⟨old, Grid.tileAt_eq_ok_iff.mpr ⟨hp, hold⟩, rfl⟩

/-- Along a list of courses a tile keeps its id, and each field has the value of the last course
that writes to it. -/
theorem foldl_shift (tick : Nat) (courses : List Course) (tile : Tile) (field : Field) :
    (courses.foldl (Course.shift tick) tile).id = tile.id ∧
      (courses.foldl (Course.shift tick) tile).get field =
        courses.foldl (fun value c =>
          if c.IsActiveAt tick ∧ c.Moves tile.id field then c.valueAt tick else value)
          (tile.get field) := by
  induction courses generalizing tile with
  | nil => exact ⟨rfl, rfl⟩
  | cons c rest ih =>
    obtain ⟨hid, hget⟩ := ih (c.shift tick tile)
    rw [List.foldl_cons, List.foldl_cons, hid, hget, Course.id_shift, Course.get_shift]
    exact ⟨rfl, rfl⟩

/-- A field that no active course moves keeps its value. -/
theorem get_foldl_shift_of_forall_not {tick : Nat} {courses : List Course} {tile : Tile}
    {field : Field} (h : ∀ c ∈ courses, c.IsActiveAt tick → ¬ c.Moves tile.id field) :
    (courses.foldl (Course.shift tick) tile).get field = tile.get field := by
  induction courses generalizing tile with
  | nil => rfl
  | cons c rest ih =>
    have hfirst : ¬ (c.IsActiveAt tick ∧ c.Moves tile.id field) :=
      fun hc => h c List.mem_cons_self hc.1 hc.2
    rw [List.foldl_cons, ih, Course.get_shift, if_neg hfirst]
    rw [Course.id_shift]
    exact fun c' hc' => h c' (List.mem_cons_of_mem _ hc')

end Timeline

end OrbPuzzle
