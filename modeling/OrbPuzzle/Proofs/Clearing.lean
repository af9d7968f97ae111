import OrbPuzzle.Clearing
import OrbPuzzle.Proofs.Timeline.Course

/-!
# What a clearing leaves pending

A clearing adds many transitions to the timeline, two for each orb and one more. Of their commands
only this matters later: every cell of every line is refilled, line by line and cell by cell, then
the lines are tallied, and all of it is due at one tick, two phases after the start. Of their
motions it matters that they move the tiles on those lines and no others.

`queue_eq_ok` says this of every clearing whose lines lie on the board, as the uniform lines of the
board do. `stop_le_of_queue` says how long it lasts.
-/

namespace OrbPuzzle.Clearing

/-- The id is that of a tile on one of the lines. -/
def OnLines (g : Grid) (lines : List Line) (id : TileId) : Prop :=
  ∃ line ∈ lines, ∃ pos ∈ line.cells g.size, ∃ tile, g.tileAt pos = .ok tile ∧ tile.id = id

/-- A refill of every cell of the given lines, in order. -/
def refills (size : Nat) (lines : List Line) : List Command :=
  (lines.flatMap fun line => line.cells size).map .refill

/-- The commands that clearing the given lines leads to. Without lines there are none. -/
def commands (size : Nat) (lines : List Line) : List Command :=
  if lines = [] then [] else refills size lines ++ [.tally lines.length]

/-- The commands of a clearing that has a line to clear. -/
theorem commands_of_le {size : Nat} {lines : List Line} (h : 1 ≤ lines.length) :
    commands size lines = refills size lines ++ [.tally lines.length] := by
  have hne : lines ≠ [] := List.length_pos_iff.mp h
  rw [commands, if_neg hne]

theorem length_refills (size : Nat) (lines : List Line) :
    (refills size lines).length = size * lines.length := by
  rw [refills, List.length_map]
  induction lines with
  | nil => rfl
  | cons line rest ih =>
    rw [List.flatMap_cons, List.length_append, Line.length_cells, ih, List.length_cons,
      Nat.mul_succ, Nat.add_comm]

/-- The schedule of a clearing: two phases, one after the other. -/
theorem Schedule.starting_eq_ok {start phase : Nat} {ticks : Schedule}
    (h : Schedule.starting start phase = .ok ticks) :
    ticks.start = start ∧ ticks.shrunk = start + phase ∧ ticks.gone = start + 2 * phase := by
  obtain ⟨shrunk, hshrunk, h⟩ := bind_eq_ok_iff.mp h
  obtain ⟨gone, hgone, h⟩ := bind_eq_ok_iff.mp h
  obtain rfl := pure_eq_ok_iff.mp h
  have hshrunk := (Count.add_eq_ok_iff.mp hshrunk).1
  have hgone := (Count.add_eq_ok_iff.mp hgone).1
  refine ⟨rfl, hshrunk.symm, ?_⟩
  show gone = start + 2 * phase
  omega

/-- Of the two transitions of an orb, the second holds the refill of its cell. Both move the orb. -/
theorem cellTransitions_eq_ok {rules : Rules} {ticks : Schedule} {line : Line} {pos : Pos}
    {tile : Tile} {added : List (Transition Command)}
    (h : cellTransitions rules ticks line pos tile = .ok added) :
    added.filterMap Transition.awaited = [(ticks.gone, .refill pos)] ∧
      ∀ c ∈ added.filterMap Transition.course?, c.motion.tile = tile.id := by
  obtain ⟨shrink, hshrink, h⟩ := bind_eq_ok_iff.mp h
  obtain ⟨slide, hslide, h⟩ := bind_eq_ok_iff.mp h
  obtain rfl := pure_eq_ok_iff.mp h
  obtain ⟨-, -, hshrinkMotion, hshrinkDone⟩ := Transition.make_eq_ok hshrink
  obtain ⟨-, hslideStop, hslideMotion, hslideDone⟩ := Transition.make_eq_ok hslide
  constructor
  · simp [Transition.awaited, hshrinkDone, hslideStop, hslideDone]
  · simp [Transition.course?, hshrinkMotion, hslideMotion]

/-- On cells of the board the work never stops early, and each cell has its refill pending. Only
tiles on those cells are moved. -/
theorem transitions_eq_ok {rules : Rules} {ticks : Schedule} {g : Grid} {cells : List (Line × Pos)}
    {reply : Reply (List (Transition Command)) Unit}
    (hcells : ∀ cell ∈ cells, cell.2.Within g.size)
    (h : transitions rules ticks g cells = .ok reply) :
    reply.answer = .ok () ∧
      reply.state.filterMap Transition.awaited =
        cells.map (fun cell => (ticks.gone, Command.refill cell.2)) ∧
      ∀ c ∈ reply.state.filterMap Transition.course?,
        ∃ cell ∈ cells, ∃ tile, g.tileAt cell.2 = .ok tile ∧ tile.id = c.motion.tile := by
  induction cells generalizing reply with
  | nil =>
    cases h
    exact ⟨rfl, rfl, fun _ hc => nomatch hc⟩
  | cons cell rest ih =>
    obtain ⟨line, pos⟩ := cell
    obtain ⟨tile, htile⟩ := Grid.tileAt_eq_ok_of_within (hcells (line, pos) List.mem_cons_self)
    simp only [transitions, htile] at h
    obtain ⟨first, hfirst, h⟩ := bind_eq_ok_iff.mp h
    obtain ⟨others, hothers, h⟩ := bind_eq_ok_iff.mp h
    obtain rfl := pure_eq_ok_iff.mp h
    have hrest : ∀ cell ∈ rest, cell.2.Within g.size :=
      fun cell hcell => hcells cell (List.mem_cons_of_mem _ hcell)
    obtain ⟨hpendingFirst, hmoved⟩ := cellTransitions_eq_ok hfirst
    obtain ⟨hanswer, hpending, hmovedRest⟩ := ih hrest hothers
    refine ⟨hanswer, ?_, ?_⟩
    · show (first ++ others.state).filterMap Transition.awaited = _
      rw [List.filterMap_append, hpendingFirst, hpending]
      rfl
    · intro c hc
      replace hc : c ∈ (first ++ others.state).filterMap Transition.course? := hc
      rw [List.filterMap_append, List.mem_append] at hc
      rcases hc with hc | hc
      · exact ⟨(line, pos), List.mem_cons_self, tile, htile, (hmoved c hc).symm⟩
      · obtain ⟨cell, hcell, moved⟩ := hmovedRest c hc
        exact ⟨cell, List.mem_cons_of_mem _ hcell, moved⟩

/-- Clearing lines of the board gives their number and leaves their commands pending, all due two
phases later. Only tiles on those lines are moved. -/
theorem queue_eq_ok {rules : Rules} {g : Grid} {lines : List Line} {timeline : Timeline Command}
    {reply : Reply (Timeline Command) Nat}
    (hlines : ∀ line ∈ lines, ∀ pos ∈ line.cells g.size, pos.Within g.size)
    (h : queue rules g lines timeline = .ok reply) :
    reply.answer = .ok lines.length ∧ (lines ≠ [] → 0 < rules.phaseTicks) ∧
      ∃ added, reply.state = timeline.append added ∧
        added.filterMap Transition.awaited =
          (commands g.size lines).map (timeline.tick + 2 * rules.phaseTicks, ·) ∧
        ∀ c ∈ added.filterMap Transition.course?, OnLines g lines c.motion.tile := by
  unfold queue at h
  by_cases hempty : lines = []
  · subst hempty
    cases h
    refine ⟨rfl, fun hne => absurd rfl hne, [], ?_, rfl, fun _ hc => nomatch hc⟩
    simp [Timeline.append]
  · rw [if_neg (by simpa using hempty)] at h
    obtain ⟨ticks, hticks, h⟩ := bind_eq_ok_iff.mp h
    obtain ⟨⟨added, answer⟩, htransitions, h⟩ := bind_eq_ok_iff.mp h
    obtain ⟨-, hshrunk, hgone⟩ := Schedule.starting_eq_ok hticks
    have hcells : ∀ cell ∈ lines.flatMap (fun line => (line.cells g.size).map (line, ·)),
        cell.2.Within g.size := by
      intro cell hcell
      obtain ⟨line, hline, hcell⟩ := List.mem_flatMap.mp hcell
      obtain ⟨pos, hpos, rfl⟩ := List.mem_map.mp hcell
      exact hlines line hline pos hpos
    obtain ⟨hanswer, hpending, hmoved⟩ := transitions_eq_ok hcells htransitions
    simp only at hanswer hpending hmoved
    subst hanswer
    obtain ⟨report, hreport, h⟩ := bind_eq_ok_iff.mp h
    obtain rfl := pure_eq_ok_iff.mp h
    obtain ⟨hstart, hstop, hmotion, hdone⟩ := Transition.make_eq_ok hreport
    have hspan := report.start_lt_stop
    refine ⟨rfl, fun _ => by omega, added ++ [report], rfl, ?_, ?_⟩
    · rw [commands, if_neg hempty, List.filterMap_append, hpending, hgone]
      simp [Transition.awaited, hdone, hstop, hgone, refills, List.map_flatMap, Function.comp_def]
    · -- the report moves nothing
      have hreportCourse : [report].filterMap Transition.course? = [] := by
        simp [Transition.course?, hmotion]
      intro c hc
      rw [List.filterMap_append, hreportCourse, List.append_nil] at hc
      obtain ⟨cell, hcell, tile, htile, hid⟩ := hmoved c hc
      obtain ⟨line, hline, hcell⟩ := List.mem_flatMap.mp hcell
      obtain ⟨pos, hpos, rfl⟩ := List.mem_map.mp hcell
      exact ⟨line, hline, pos, hpos, tile, htile, hid⟩

/-! ## How long a clearing lasts -/

theorem stop_of_cellTransitions {rules : Rules} {ticks : Schedule} {line : Line} {pos : Pos}
    {tile : Tile} {added : List (Transition Command)}
    (h : cellTransitions rules ticks line pos tile = .ok added) :
    ∀ u ∈ added, u.stop = ticks.shrunk ∨ u.stop = ticks.gone := by
  obtain ⟨shrink, hshrink, h⟩ := bind_eq_ok_iff.mp h
  obtain ⟨slide, hslide, h⟩ := bind_eq_ok_iff.mp h
  obtain rfl := pure_eq_ok_iff.mp h
  simp [(Transition.make_eq_ok hshrink).2.1, (Transition.make_eq_ok hslide).2.1]

theorem stop_of_transitions {rules : Rules} {ticks : Schedule} {g : Grid}
    {cells : List (Line × Pos)} {reply : Reply (List (Transition Command)) Unit}
    (h : transitions rules ticks g cells = .ok reply) :
    ∀ u ∈ reply.state, u.stop = ticks.shrunk ∨ u.stop = ticks.gone := by
  induction cells generalizing reply with
  | nil =>
    cases h
    exact fun _ hu => nomatch hu
  | cons cell rest ih =>
    obtain ⟨line, pos⟩ := cell
    unfold transitions at h
    cases htile : g.tileAt pos with
    | error e =>
      rw [htile] at h
      cases h
      exact fun _ hu => nomatch hu
    | ok tile =>
      rw [htile] at h
      obtain ⟨first, hfirst, h⟩ := bind_eq_ok_iff.mp h
      obtain ⟨others, hothers, h⟩ := bind_eq_ok_iff.mp h
      obtain rfl := pure_eq_ok_iff.mp h
      intro u hu
      rcases List.mem_append.mp hu with hu | hu
      · exact stop_of_cellTransitions hfirst u hu
      · exact ih hothers u hu

/-- Whatever a clearing adds ends within its two phases. -/
theorem stop_le_of_queue {rules : Rules} {g : Grid} {lines : List Line}
    {timeline : Timeline Command} {reply : Reply (Timeline Command) Nat}
    (h : queue rules g lines timeline = .ok reply) :
    ∀ u ∈ reply.state.active,
      u ∈ timeline.active ∨ u.stop ≤ timeline.tick + 2 * rules.phaseTicks := by
  unfold queue at h
  split at h
  · cases h
    exact fun _ hu => .inl hu
  · obtain ⟨ticks, hticks, h⟩ := bind_eq_ok_iff.mp h
    obtain ⟨⟨added, answer⟩, htransitions, h⟩ := bind_eq_ok_iff.mp h
    obtain ⟨-, hshrunk, hgone⟩ := Schedule.starting_eq_ok hticks
    have hadded : ∀ u ∈ added, u.stop ≤ timeline.tick + 2 * rules.phaseTicks := by
      intro u hu
      have hstop := stop_of_transitions htransitions u hu
      omega
    cases answer with
    | error e =>
      obtain rfl := pure_eq_ok_iff.mp h
      intro u hu
      exact (List.mem_append.mp hu).imp_right (hadded u)
    | ok _ =>
      obtain ⟨report, hreport, h⟩ := bind_eq_ok_iff.mp h
      obtain rfl := pure_eq_ok_iff.mp h
      have hstop := (Transition.make_eq_ok hreport).2.1
      intro u hu
      simp only [Timeline.active_append, List.mem_append, List.mem_singleton] at hu
      rcases hu with hu | hu | rfl
      · exact .inl hu
      · exact .inr (hadded u hu)
      · exact .inr (by omega)

end OrbPuzzle.Clearing
