import Mathlib.Data.List.Induction
import OrbPuzzle.Proofs.Timeline.Course

/-!
# Where tiles land

The courses in progress decide what becomes of a tile when nothing is added: each field ends with
the last value of the last course that moves it and has not ended yet. This is its landing, and it
is what stays the same while the courses run. `landing_foldl_shift` says so: the landing seen at a
tick is the landing seen after that tick has been played, now or one tick later.

The list order is the order in which courses write, so the last course to write must also be the
last to end. That is `Orderly`.
-/

namespace OrbPuzzle

/-- The value that a course gives its field at the end. -/
def Course.last (c : Course) : Single := c.valueAt c.stop

/-- The value a field of a tile has when all courses that end at a tick or later have run. -/
def landing (tick : Nat) (courses : List Course) (tile : Tile) (field : Field) : Single :=
  courses.foldl (fun value c => if tick ≤ c.stop ∧ c.Moves tile.id field then c.last else value)
    (tile.get field)

/-- Of the courses that move a field of a tile, none ends before one that precedes it. -/
def Orderly (courses : List Course) (tile : TileId) (field : Field) : Prop :=
  courses.Pairwise fun a b => a.Moves tile field → b.Moves tile field → a.stop ≤ b.stop

section

variable {tick : Nat} {courses : List Course} {tile : Tile} {field : Field}

theorem landing_concat (tick : Nat) (courses : List Course) (c : Course) (tile : Tile)
    (field : Field) :
    landing tick (courses ++ [c]) tile field =
      if tick ≤ c.stop ∧ c.Moves tile.id field then c.last
      else landing tick courses tile field := by
  rw [landing, List.foldl_append]
  rfl

/-- Courses that do not move the field, or have ended, do not matter. -/
theorem landing_append_of_forall_not {added : List Course}
    (h : ∀ c ∈ added, tick ≤ c.stop → ¬ c.Moves tile.id field) :
    landing tick (courses ++ added) tile field = landing tick courses tile field := by
  induction added using List.reverseRecOn with
  | nil => rw [List.append_nil]
  | append_singleton added c ih =>
    have hlast : ¬ (tick ≤ c.stop ∧ c.Moves tile.id field) :=
      fun hc => h c (List.mem_append_right _ List.mem_cons_self) hc.1 hc.2
    rw [← List.append_assoc, landing_concat, if_neg hlast]
    exact ih fun c hc => h c (List.mem_append_left _ hc)

theorem landing_of_forall_not (h : ∀ c ∈ courses, tick ≤ c.stop → ¬ c.Moves tile.id field) :
    landing tick courses tile field = tile.get field := by
  show landing tick ([] ++ courses) tile field = landing tick [] tile field
  exact landing_append_of_forall_not h

/-- Courses that are dropped because they have ended are not missed. -/
theorem landing_filter {now : Nat} (h : now ≤ tick) :
    landing tick (courses.filter (now ≤ ·.stop)) tile field = landing tick courses tile field := by
  induction courses using List.reverseRecOn with
  | nil => rfl
  | append_singleton courses c ih =>
    rw [List.filter_append, landing_concat]
    by_cases hc : now ≤ c.stop
    · rw [List.filter_cons_of_pos (by simpa using hc), List.filter_nil, landing_concat, ih]
    · have hended : ¬ (tick ≤ c.stop ∧ c.Moves tile.id field) := by omega
      rw [List.filter_cons_of_neg (by simpa using hc), List.filter_nil, List.append_nil, ih,
        if_neg hended]

/-! ## Playing a tick -/

/-- Where a field lands depends on the tile's id and on what the field is now. -/
theorem landing_congr {other : Tile} (hid : other.id = tile.id)
    (hget : other.get field = tile.get field) :
    landing tick courses other field = landing tick courses tile field := by
  rw [landing, landing, hid, hget]

/-- Playing a tick does not change where a tile lands, seen at that tick or at the next. -/
theorem landing_foldl_shift {next : Nat} (hle : tick ≤ next) (hnext : next ≤ tick + 1)
    (hspan : ∀ c ∈ courses, c.start ≤ c.stop) (horder : Orderly courses tile.id field) :
    landing next courses (courses.foldl (Course.shift tick) tile) field =
      landing tick courses tile field := by
  -- from the end of the list: the last course that moves the field decides
  induction courses using List.reverseRecOn with
  | nil => rfl
  | append_singleton courses c ih =>
    obtain ⟨hinit, -, hlast⟩ := List.pairwise_append.mp horder
    have hid : ((courses ++ [c]).foldl (Course.shift tick) tile).id = tile.id :=
      (Timeline.foldl_shift tick _ tile field).1
    have hid' : (courses.foldl (Course.shift tick) tile).id = tile.id :=
      (Timeline.foldl_shift tick _ tile field).1
    have hget : ((courses ++ [c]).foldl (Course.shift tick) tile).get field =
        if c.IsActiveAt tick ∧ c.Moves tile.id field then c.valueAt tick
        else (courses.foldl (Course.shift tick) tile).get field := by
      rw [List.foldl_append, List.foldl_cons, List.foldl_nil, Course.get_shift, hid']
    rw [landing_concat, landing_concat, hid]
    by_cases hc : tick ≤ c.stop ∧ c.Moves tile.id field
    · rw [if_pos hc]
      by_cases hlater : next ≤ c.stop
      · rw [if_pos ⟨hlater, hc.2⟩]
      · -- the course ends at this very tick, and nothing that moves the field ends later
        have hstop : c.stop = tick := by omega
        have hactive : c.IsActiveAt tick := by
          have hstart := hspan c (List.mem_append_right _ List.mem_cons_self)
          exact ⟨hstop ▸ hstart, Nat.le_of_eq hstop.symm⟩
        rw [if_neg (fun h => hlater h.1), landing_of_forall_not, hget, if_pos ⟨hactive, hc.2⟩,
          Course.last, hstop]
        intro d hd hnextd hmoves
        rw [hid] at hmoves
        have hstops := hlast d hd c List.mem_cons_self hmoves hc.2
        omega
    · have hnever : ¬ (next ≤ c.stop ∧ c.Moves tile.id field) :=
        fun h => hc ⟨Nat.le_trans hle h.1, h.2⟩
      have hidle : ¬ (c.IsActiveAt tick ∧ c.Moves tile.id field) :=
        fun h => hc ⟨h.1.2, h.2⟩
      rw [if_neg hc, if_neg hnever, ← ih (fun d hd => hspan d (List.mem_append_left _ hd)) hinit]
      apply landing_congr (hid.trans hid'.symm)
      rw [hget, if_neg hidle]

end

end OrbPuzzle
