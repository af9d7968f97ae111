import Mathlib.Data.List.Count
import Mathlib.Data.List.Perm.Subperm
import OrbPuzzle.Proofs.Clearing
import OrbPuzzle.Proofs.Grid.Detection

/-!
# What a clearing queues

A clearing goes through its lines and along each line through its cells. At each cell it queues two
transitions, and after the last one it queues the report. This module gives the whole list in closed
form, for every list of lines: `queue_of_within` if all cells lie on the board, and
`queue_of_outside` if one does not, at which the work stops. The lines of the board's own report are
of the first kind.

A cell stands in the list once for each line through it (`count_flatMap_cells`), and of the lines
that are found at most two go through one cell.
-/

namespace OrbPuzzle

namespace Line

/-- The line goes through a cell. -/
def Through (p : Pos) : Line → Prop
  | .row r => p.row = r
  | .column c => p.col = c

instance (p : Pos) : (line : Line) → Decidable (line.Through p)
  | .row r => inferInstanceAs (Decidable (p.row = r))
  | .column c => inferInstanceAs (Decidable (p.col = c))

variable {size : Nat} {p : Pos}

/-- On the board, the cells of a line are those it goes through. -/
theorem mem_cells_iff (hp : p.Within size) {line : Line} :
    p ∈ line.cells size ↔ line.Through p := by
  obtain ⟨col, row⟩ := p
  obtain ⟨hcol, hrow⟩ := hp
  cases line with
  | row r => simpa [cells, Through, eq_comm] using fun _ => hcol
  | column c => simpa [cells, Through, eq_comm] using fun _ => hrow

theorem nodup_cells (size : Nat) (line : Line) : (line.cells size).Nodup := by
  cases line with
  | row r => exact List.nodup_range.map fun _ _ h => (Pos.mk.inj h).1
  | column c => exact List.nodup_range.map fun _ _ h => (Pos.mk.inj h).2

/-- When lines are listed cell by cell, a cell of the board comes once for each line through it. -/
theorem count_flatMap_cells (hp : p.Within size) (lines : List Line) :
    (lines.flatMap fun line => line.cells size).count p = lines.countP (·.Through p) := by
  induction lines with
  | nil => rfl
  | cons line rest ih =>
    have hfirst : (line.cells size).count p = if line.Through p then 1 else 0 := by
      rw [(nodup_cells size line).count]
      simp only [mem_cells_iff hp]
    rw [List.flatMap_cons, List.count_append, ih, hfirst, List.countP_cons, Nat.add_comm]
    simp

/-- Of different lines only a row and a column go through one cell. -/
theorem countP_through_le {lines : List Line} (h : lines.Nodup) (p : Pos) :
    lines.countP (·.Through p) ≤ 2 := by
  have hsubset : lines.filter (·.Through p) ⊆ [.row p.row, .column p.col] := by
    intro line hline
    have hthrough : line.Through p := by simpa using (List.mem_filter.mp hline).2
    cases line with
    | row r => simp [show p.row = r from hthrough]
    | column c => simp [show p.col = c from hthrough]
  rw [List.countP_eq_length_filter]
  exact (List.subperm_of_subset (h.filter _) hsubset).length_le

end Line

namespace Clearing

/-! ## The list in closed form -/

/-- The cells of a list of lines, line by line, each with its line. -/
def cellsOf (size : Nat) (lines : List Line) : List (Line × Pos) :=
  lines.flatMap fun line => (line.cells size).map (line, ·)

/-- A transition that lasts one phase. -/
def lasting {rules : Rules} (hphase : 0 < rules.phaseTicks) (start : Nat) (motion : Option Motion)
    (onDone : Option Command) : Transition Command where
  start := start
  stop := start + rules.phaseTicks
  motion := motion
  onDone := onDone
  start_lt_stop := Nat.lt_add_of_pos_right hphase

section Parts

variable {rules : Rules} (hphase : 0 < rules.phaseTicks) (tick : Nat)

/-- The orb shrinks in the first phase. -/
def shrinking (tile : Tile) : Transition Command :=
  lasting hphase tick
    (some {
      tile := tile.id, field := .scale, source := tile.scale, target := rules.clearedScale
      easing := .windupOvershoot })
    none

/-- In the second phase the orb slides away along its line, and its cell is refilled at the end. -/
def sliding (line : Line) (pos : Pos) (tile : Tile) : Transition Command :=
  lasting hphase (tick + rules.phaseTicks)
    (some {
      tile := tile.id, field := line.exitField, source := tile.get line.exitField
      target := tile.get line.exitField + rules.slideDistance, easing := .easeBoth })
    (some (.refill pos))

/-- In the second phase the report waits, and the lines are tallied at the end. -/
def reporting (lines : Nat) : Transition Command :=
  lasting hphase (tick + rules.phaseTicks) none (some (.tally lines))

/-- The two transitions of the orb on a cell. A cell outside the board has none. -/
def cellPair (g : Grid) (cell : Line × Pos) : List (Transition Command) :=
  match g.tileAt cell.2 with
  | .error _ => []
  | .ok tile => [shrinking hphase tick tile, sliding hphase tick cell.1 cell.2 tile]

/-- The transitions of the orbs on a list of cells. -/
def cellPairs (g : Grid) (cells : List (Line × Pos)) : List (Transition Command) :=
  cells.flatMap (cellPair hphase tick g)

/-- All transitions of a clearing: those of its orbs, then the report. Without lines there are
none. -/
def sequence (g : Grid) (lines : List Line) : List (Transition Command) :=
  if lines = [] then []
  else cellPairs hphase tick g (cellsOf g.size lines) ++ [reporting hphase tick lines.length]

end Parts

/-! ## Cells of lines -/

section Cells

variable {size : Nat} {lines : List Line}

theorem mem_cellsOf {cell : Line × Pos} :
    cell ∈ cellsOf size lines ↔ cell.1 ∈ lines ∧ cell.2 ∈ cell.1.cells size := by
  obtain ⟨line, pos⟩ := cell
  simp [cellsOf]

theorem map_snd_cellsOf (size : Nat) (lines : List Line) :
    (cellsOf size lines).map Prod.snd = lines.flatMap fun line => line.cells size := by
  simp [cellsOf, List.map_flatMap, Function.comp_def]

theorem length_cellsOf (size : Nat) (lines : List Line) :
    (cellsOf size lines).length = size * lines.length := by
  rw [← length_refills, refills, ← map_snd_cellsOf, List.length_map, List.length_map]

/-- Some cell lies outside the board if some line does, and the board is not empty. -/
theorem exists_outside_iff :
    (∃ cell ∈ cellsOf size lines, ¬ cell.2.Within size) ↔
      1 ≤ size ∧ ∃ line ∈ lines, size ≤ line.index := by
  constructor
  · rintro ⟨⟨line, pos⟩, hcell, hout⟩
    obtain ⟨hline, hpos⟩ := mem_cellsOf.mp hcell
    have hlength := List.length_pos_of_mem hpos
    rw [Line.length_cells] at hlength
    rw [Line.within_iff_of_mem_cells hpos, Nat.not_lt] at hout
    exact ⟨hlength, line, hline, hout⟩
  · rintro ⟨hsize, line, hline, hindex⟩
    obtain ⟨pos, hpos⟩ : ∃ pos, pos ∈ line.cells size := by
      apply List.exists_mem_of_length_pos
      rw [Line.length_cells]
      exact hsize
    refine ⟨(line, pos), mem_cellsOf.mpr ⟨hline, hpos⟩, ?_⟩
    rw [Line.within_iff_of_mem_cells hpos, Nat.not_lt]
    exact hindex

/-- The first cell outside the board. -/
theorem exists_first_outside {cells : List (Line × Pos)}
    (h : ∃ cell ∈ cells, ¬ cell.2.Within size) :
    ∃ before line pos rest, cells = before ++ (line, pos) :: rest ∧
      (∀ cell ∈ before, cell.2.Within size) ∧ ¬ pos.Within size := by
  obtain ⟨cell, hcell, hout⟩ := h
  obtain ⟨⟨line, pos⟩, before, rest, hbefore, hpos, hsplit, -⟩ :=
    List.exists_of_eraseP (p := fun cell => ¬ cell.2.Within size) hcell (by simpa using hout)
  exact ⟨before, line, pos, rest, hsplit, by simpa using hbefore, by simpa using hpos⟩

/-- A cell of the board is refilled once for each line through it. -/
theorem count_refill_commands {pos : Pos} (hpos : pos.Within size) (lines : List Line) :
    (commands size lines).count (.refill pos) = lines.countP (·.Through pos) := by
  have hinjective : Function.Injective Command.refill := fun _ _ h => Command.refill.inj h
  unfold commands
  split
  case isTrue hempty => rw [hempty]; rfl
  case isFalse =>
    rw [List.count_append, refills, List.count_map_of_injective _ _ hinjective,
      Line.count_flatMap_cells hpos]
    simp

end Cells

/-! ## The work, cell by cell -/

section Work

variable {rules : Rules} (hphase : 0 < rules.phaseTicks) {tick : Nat} {g : Grid}

theorem make_lasting (start : Nat) (motion : Option Motion) (onDone : Option Command) :
    Transition.make start (start + rules.phaseTicks) motion onDone =
      .ok (lasting hphase start motion onDone) :=
  dif_pos (Nat.lt_add_of_pos_right hphase)

/-- The ticks of a clearing that starts at a tick. -/
def scheduleAt (rules : Rules) (tick : Nat) : Schedule where
  start := tick
  shrunk := tick + rules.phaseTicks
  gone := tick + rules.phaseTicks + rules.phaseTicks

theorem starting_of_room (h : tick + 2 * rules.phaseTicks < Count.limit) :
    Schedule.starting tick rules.phaseTicks = .ok (scheduleAt rules tick) := by
  have hshrunk : Count.add tick rules.phaseTicks = .ok (tick + rules.phaseTicks) :=
    Count.add_eq_ok_iff.mpr ⟨rfl, by omega⟩
  have hgone : Count.add (tick + rules.phaseTicks) rules.phaseTicks =
      .ok (tick + rules.phaseTicks + rules.phaseTicks) :=
    Count.add_eq_ok_iff.mpr ⟨rfl, by omega⟩
  exact bind_eq_ok_iff.mpr ⟨_, hshrunk, bind_eq_ok_iff.mpr ⟨_, hgone, rfl⟩⟩

theorem cellTransitions_scheduleAt (line : Line) (pos : Pos) (tile : Tile) :
    cellTransitions rules (scheduleAt rules tick) line pos tile =
      .ok [shrinking hphase tick tile, sliding hphase tick line pos tile] := by
  have hshrink := make_lasting hphase tick
  have hslide := make_lasting hphase (tick + rules.phaseTicks)
  exact bind_eq_ok_iff.mpr ⟨_, hshrink _ _, bind_eq_ok_iff.mpr ⟨_, hslide _ _, rfl⟩⟩

theorem cellPairs_cons {pos : Pos} {tile : Tile} (htile : g.tileAt pos = .ok tile) (line : Line)
    (rest : List (Line × Pos)) :
    cellPairs hphase tick g ((line, pos) :: rest) =
      [shrinking hphase tick tile, sliding hphase tick line pos tile] ++
        cellPairs hphase tick g rest := by
  rw [cellPairs, List.flatMap_cons, cellPair, htile]
  rfl

/-- Cells of the board are gone through one after the other. -/
theorem transitions_append {before : List (Line × Pos)}
    (hbefore : ∀ cell ∈ before, cell.2.Within g.size) {rest : List (Line × Pos)}
    {reply : Reply (List (Transition Command)) Unit}
    (h : transitions rules (scheduleAt rules tick) g rest = .ok reply) :
    transitions rules (scheduleAt rules tick) g (before ++ rest) =
      .ok (reply.mapState (cellPairs hphase tick g before ++ ·)) := by
  induction before with
  | nil => exact h
  | cons cell before ih =>
    obtain ⟨line, pos⟩ := cell
    obtain ⟨tile, htile⟩ := Grid.tileAt_eq_ok_of_within (hbefore (line, pos) List.mem_cons_self)
    have ih := ih fun cell hcell => hbefore cell (List.mem_cons_of_mem _ hcell)
    -- the reply for the rest is extended in front only, so its answer may also be an error
    rw [List.cons_append, transitions, htile, cellPairs_cons hphase htile]
    exact bind_eq_ok_iff.mpr ⟨_, cellTransitions_scheduleAt hphase line pos tile,
      bind_eq_ok_iff.mpr ⟨_, ih, rfl⟩⟩

/-- The work ends when there are no more cells. -/
theorem transitions_of_within {cells : List (Line × Pos)}
    (hcells : ∀ cell ∈ cells, cell.2.Within g.size) :
    transitions rules (scheduleAt rules tick) g cells =
      .ok ⟨cellPairs hphase tick g cells, .ok ()⟩ := by
  have hend : transitions rules (scheduleAt rules tick) g [] = .ok ⟨[], .ok ()⟩ := rfl
  have hall := transitions_append hphase hcells hend
  simpa [Reply.mapState] using hall

/-- The work ends at the first cell outside the board. -/
theorem transitions_of_outside {before rest : List (Line × Pos)} {line : Line} {pos : Pos}
    (hbefore : ∀ cell ∈ before, cell.2.Within g.size) (hpos : ¬ pos.Within g.size) :
    transitions rules (scheduleAt rules tick) g (before ++ (line, pos) :: rest) =
      .ok ⟨cellPairs hphase tick g before, .error ⟨pos, g.size⟩⟩ := by
  have hstop : transitions rules (scheduleAt rules tick) g ((line, pos) :: rest) =
      .ok ⟨[], .error ⟨pos, g.size⟩⟩ := by
    rw [transitions, Grid.tileAt_of_not_within hpos]
  have hall := transitions_append hphase hbefore hstop
  simpa [Reply.mapState] using hall

/-! ## The whole queue -/

variable {timeline : Timeline Command} {lines : List Line}

/-- If all cells lie on the board, the whole sequence is queued. -/
theorem queue_of_within (hroom : timeline.tick + 2 * rules.phaseTicks < Count.limit)
    (hcells : ∀ cell ∈ cellsOf g.size lines, cell.2.Within g.size) :
    queue rules g lines timeline =
      .ok ⟨timeline.append (sequence hphase timeline.tick g lines), .ok lines.length⟩ := by
  unfold queue sequence
  by_cases hlines : lines = []
  · subst hlines
    simp [Timeline.append]
  · have hreport := make_lasting hphase (timeline.tick + rules.phaseTicks) none
      (some (.tally lines.length))
    rw [if_neg hlines, if_neg (by simpa using hlines)]
    exact bind_eq_ok_iff.mpr ⟨_, starting_of_room hroom, bind_eq_ok_iff.mpr
      ⟨_, transitions_of_within hphase hcells, bind_eq_ok_iff.mpr ⟨_, hreport, rfl⟩⟩⟩

/-- At the first cell outside the board the work stops. What was queued stays, and there is no
report. -/
theorem queue_of_outside (hroom : timeline.tick + 2 * rules.phaseTicks < Count.limit)
    {before rest : List (Line × Pos)} {line : Line} {pos : Pos}
    (hcells : cellsOf g.size lines = before ++ (line, pos) :: rest)
    (hbefore : ∀ cell ∈ before, cell.2.Within g.size) (hpos : ¬ pos.Within g.size) :
    queue rules g lines timeline =
      .ok ⟨timeline.append (cellPairs hphase timeline.tick g before), .error ⟨pos, g.size⟩⟩ := by
  have hlines : lines ≠ [] := by
    rintro rfl
    cases before <;> cases hcells
  have htransitions : transitions rules (scheduleAt rules timeline.tick) g (cellsOf g.size lines) =
      .ok ⟨cellPairs hphase timeline.tick g before, .error ⟨pos, g.size⟩⟩ :=
    hcells ▸ transitions_of_outside hphase hbefore hpos
  unfold queue
  rw [if_neg (by simpa using hlines)]
  exact bind_eq_ok_iff.mpr ⟨_, starting_of_room hroom,
    bind_eq_ok_iff.mpr ⟨_, htransitions, rfl⟩⟩

/-- Of the transitions of a cell only the second holds a command, the refill. -/
theorem filterMap_onDone_cellPairs {cells : List (Line × Pos)}
    (hcells : ∀ cell ∈ cells, cell.2.Within g.size) :
    (cellPairs hphase tick g cells).filterMap (·.onDone) = cells.map (.refill ·.2) := by
  induction cells with
  | nil => rfl
  | cons cell rest ih =>
    obtain ⟨line, pos⟩ := cell
    obtain ⟨tile, htile⟩ := Grid.tileAt_eq_ok_of_within (hcells (line, pos) List.mem_cons_self)
    have ih := ih fun cell hcell => hcells cell (List.mem_cons_of_mem _ hcell)
    rw [cellPairs_cons hphase htile, List.filterMap_append, ih]
    rfl

theorem length_cellPairs {cells : List (Line × Pos)}
    (hcells : ∀ cell ∈ cells, cell.2.Within g.size) :
    (cellPairs hphase tick g cells).length = 2 * cells.length := by
  induction cells with
  | nil => rfl
  | cons cell rest ih =>
    obtain ⟨line, pos⟩ := cell
    obtain ⟨tile, htile⟩ := Grid.tileAt_eq_ok_of_within (hcells (line, pos) List.mem_cons_self)
    have ih := ih fun cell hcell => hcells cell (List.mem_cons_of_mem _ hcell)
    rw [cellPairs_cons hphase htile, List.length_append, ih]
    simp only [List.length_cons, List.length_nil]
    omega

/-- The commands of a sequence are those a clearing leads to. -/
theorem filterMap_onDone_sequence (hcells : ∀ cell ∈ cellsOf g.size lines, cell.2.Within g.size) :
    (sequence hphase tick g lines).filterMap (·.onDone) = commands g.size lines := by
  unfold sequence commands
  split
  case isTrue => rfl
  case isFalse =>
    rw [List.filterMap_append, filterMap_onDone_cellPairs hphase hcells, refills,
      ← map_snd_cellsOf, List.map_map]
    rfl

theorem length_sequence (hlines : lines ≠ [])
    (hcells : ∀ cell ∈ cellsOf g.size lines, cell.2.Within g.size) :
    (sequence hphase tick g lines).length = 2 * g.size * lines.length + 1 := by
  rw [sequence, if_neg hlines, List.length_append, length_cellPairs hphase hcells, length_cellsOf,
    Nat.mul_assoc]
  rfl

end Work

/-- What a clearing queues. The board's own report is cleared without an error: nothing is queued if
it is empty; otherwise two transitions for each cell of each line, in order, and one report at the
end. Each cell of the board is refilled once for each line through it, so at most twice.

Any other list of lines leads to an error exactly if the board has a cell and some line is not on
it. Then the cells before the first one outside have their transitions, and there is no report. -/
theorem queue_exact (rules : Rules) (timeline : Timeline Command) (g : Grid)
    (hphase : 0 < rules.phaseTicks) (hroom : timeline.tick + 2 * rules.phaseTicks < Count.limit) :
    (∃ added,
      queue rules g g.uniformLines timeline =
        .ok ⟨timeline.append added, .ok g.uniformLines.length⟩ ∧
      (g.uniformLines = [] → added = []) ∧
      (g.uniformLines ≠ [] →
        added = cellPairs hphase timeline.tick g (cellsOf g.size g.uniformLines) ++
          [reporting hphase timeline.tick g.uniformLines.length] ∧
        added.length = 2 * g.size * g.uniformLines.length + 1) ∧
      ∀ pos, pos.Within g.size →
        (added.filterMap (·.onDone)).count (.refill pos) = g.uniformLines.countP (·.Through pos) ∧
        g.uniformLines.countP (·.Through pos) ≤ 2) ∧
    ∀ lines ≠ [], ∃ reply, queue rules g lines timeline = .ok reply ∧
      ((∃ e, reply.answer = .error e) ↔ 1 ≤ g.size ∧ ∃ line ∈ lines, g.size ≤ line.index) ∧
      (∀ e, reply.answer = .error e → ∃ before line pos rest,
        cellsOf g.size lines = before ++ (line, pos) :: rest ∧
        (∀ cell ∈ before, cell.2.Within g.size) ∧ ¬ pos.Within g.size ∧ e = ⟨pos, g.size⟩ ∧
        reply.state = timeline.append (cellPairs hphase timeline.tick g before) ∧
        (cellPairs hphase timeline.tick g before).length = 2 * before.length ∧
        ∀ k, .tally k ∉ (cellPairs hphase timeline.tick g before).filterMap (·.onDone)) ∧
      ∀ k, reply.answer = .ok k → k = lines.length ∧
        reply.state = timeline.append
          (cellPairs hphase timeline.tick g (cellsOf g.size lines) ++
            [reporting hphase timeline.tick lines.length]) := by
  constructor
  · have hcells : ∀ cell ∈ cellsOf g.size g.uniformLines, cell.2.Within g.size := by
      intro cell hcell
      obtain ⟨hline, hpos⟩ := mem_cellsOf.mp hcell
      exact Grid.within_of_mem_uniformLines hline hpos
    refine ⟨sequence hphase timeline.tick g g.uniformLines, queue_of_within hphase hroom hcells,
      fun hempty => if_pos hempty, fun hlines => ⟨if_neg hlines, ?_⟩, fun pos hpos => ⟨?_, ?_⟩⟩
    · exact length_sequence hphase hlines hcells
    · rw [filterMap_onDone_sequence hphase hcells, count_refill_commands hpos]
    · exact Line.countP_through_le g.nodup_uniformLines pos
  · intro lines hlines
    -- a line past the board is one with a cell outside, and the first such cell decides
    rw [← exists_outside_iff]
    by_cases hout : ∃ cell ∈ cellsOf g.size lines, ¬ cell.2.Within g.size
    · obtain ⟨before, line, pos, rest, hcells, hbefore, hpos⟩ := exists_first_outside hout
      refine ⟨_, queue_of_outside hphase hroom hcells hbefore hpos, ?_, ?_, ?_⟩
      · exact iff_of_true ⟨_, rfl⟩ hout
      · rintro e ⟨⟩
        refine ⟨before, line, pos, rest, hcells, hbefore, hpos, rfl, rfl,
          length_cellPairs hphase hbefore, ?_⟩
        rw [filterMap_onDone_cellPairs hphase hbefore]
        simp
      · rintro k ⟨⟩
    · have hcells : ∀ cell ∈ cellsOf g.size lines, cell.2.Within g.size := by
        simpa using hout
      refine ⟨_, queue_of_within hphase hroom hcells, ?_, ?_, ?_⟩
      · exact iff_of_false (fun ⟨_, he⟩ => nomatch he) hout
      · rintro e ⟨⟩
      · rintro k ⟨⟩
        exact ⟨rfl, by rw [sequence, if_neg hlines]⟩

/-- A board on which the first row and the first column are red. -/
def hookGrid : Grid where
  size := 2
  tiles := Grid.tabulateTiles 2 fun p => if p = ⟨1, 1⟩ then .blue else .red
  nextId := 4
  tiles_size := Grid.size_tabulateTiles 2 _

/-- Two lines that cross queue nine transitions, and the corner is refilled twice. A row past the
board is an error. -/
theorem queue_exact_hookGrid :
    hookGrid.uniformLines = [.row 0, .column 0] ∧
      (∃ added, queue { phaseTicks := 1 } hookGrid hookGrid.uniformLines {} =
          .ok ⟨({} : Timeline Command).append added, .ok 2⟩ ∧ added.length = 9 ∧
        (added.filterMap (·.onDone)).count (.refill ⟨0, 0⟩) = 2) ∧
      ∃ reply, queue { phaseTicks := 1 } hookGrid [.column 1, .row 2] {} = .ok reply ∧
        ∃ e, reply.answer = .error e := by
  have hlines : hookGrid.uniformLines = [.row 0, .column 0] := by decide +kernel
  obtain ⟨⟨added, hqueue, -, hfull, hcount⟩, hany⟩ :=
    queue_exact { phaseTicks := 1 } {} hookGrid (by decide) (by decide)
  refine ⟨hlines, ⟨added, ?_, ?_, ?_⟩, ?_⟩
  · rw [hqueue, hlines]
    rfl
  · rw [(hfull (by rw [hlines]; decide)).2, hlines]
    rfl
  · rw [(hcount ⟨0, 0⟩ (by decide)).1, hlines]
    decide
  · obtain ⟨reply, hreply, herror, -, -⟩ := hany [.column 1, .row 2] (by decide)
    exact ⟨reply, hreply, herror.mpr ⟨by decide, .row 2, by decide, by decide⟩⟩

end Clearing

end OrbPuzzle
