import OrbPuzzle.Proofs.Session.Coasting

/-!
# A clearing from its beginning to its end

A check that finds lines starts a clearing, which takes two phases. While it goes on the faces of
the board stay. When it ends, every cell of the lines is refilled in the order of the lines, then
the lines are scored, and the board is checked again. A cell at which two lines cross stands in the
list twice and is refilled twice; what counts is the last time (`tileAt_of_refills`).

`clearing_refills` says what a clearing leaves of the board, whatever the state of the game in which
it was started.
-/

namespace OrbPuzzle

/-- The cells of the uniform lines, line by line. A cell at which two lines cross comes twice. -/
def Grid.lineCells (g : Grid) : List Pos := g.uniformLines.flatMap fun line => line.cells g.size

theorem Grid.within_of_mem_lineCells {g : Grid} {pos : Pos} (h : pos ∈ g.lineCells) :
    pos.Within g.size := by
  obtain ⟨line, hline, hpos⟩ := List.mem_flatMap.mp h
  exact Grid.within_of_mem_uniformLines hline hpos

namespace Session

variable {σ : Type}

/-! ## Refills -/

/-- The cell stands at this place of the list, and at no later one. -/
def LastAt (cells : List Pos) (pos : Pos) (i : Nat) : Prop :=
  cells[i]? = some pos ∧ pos ∉ cells.drop (i + 1)

instance (cells : List Pos) (pos : Pos) (i : Nat) : Decidable (LastAt cells pos i) :=
  inferInstanceAs (Decidable (_ ∧ _))

/-- The tile with which a list of refills leaves a cell. One colour is drawn and one id is given for
each place in the list; the colour and the id of the tile are those of the last place at which its
cell stands. -/
def Refilled (s : Session σ) (cells : List Pos) (pos : Pos) (tile : Tile) : Prop :=
  ∃ i color, LastAt cells pos i ∧
    (Color.randomList cells.length s.generator).1[i]? = some color ∧
    tile = Grid.restingTile s.grid.size (s.grid.nextId + i) pos color

/-- A cell on which an orb has been placed has a new tile, and every other cell has its own. -/
theorem tileAt_of_place {s : Session σ} {pos q : Pos} {draw : Color × Generator}
    {reply : Reply (Session σ) Unit} {tile : Tile} (h : s.place pos draw = .ok reply)
    (htile : reply.state.grid.tileAt q = .ok tile) :
    q = pos ∧ tile = Grid.restingTile s.grid.size s.grid.nextId pos draw.1 ∨
      q ≠ pos ∧ s.grid.tileAt q = .ok tile := by
  obtain ⟨answer, hanswer, h⟩ := bind_eq_ok_iff.mp h
  obtain ⟨hoff, e, rfl⟩ | ⟨i, grid, hslot, rfl, hsize, -, htiles⟩ := Grid.respawn_cases hanswer
  · obtain rfl := pure_eq_ok_iff.mp h
    refine .inr ⟨?_, htile⟩
    rintro rfl
    exact hoff (Grid.within_of_tileAt_eq_ok htile)
  · obtain rfl := pure_eq_ok_iff.mp h
    exact Grid.tileAt_of_set hslot hsize htiles htile

/-- One colour more is drawn before the others. -/
theorem colors_randomList_succ (n : Nat) (g : Generator) :
    (Color.randomList (n + 1) g).1 =
      (Color.random g).1 :: (Color.randomList n (Color.random g).2).1 := by
  rw [Color.randomList]

/-- After a list of refills the cells of the list have been refilled, and every other cell has its
tile still. -/
theorem tileAt_of_refills [Store σ] {s t : Session σ} {cells : List Pos} {pos : Pos} {tile : Tile}
    (hcells : ∀ pos ∈ cells, pos.Within s.grid.size)
    (h : s.executeAll (cells.map .refill) = .ok t) (htile : t.grid.tileAt pos = .ok tile) :
    pos ∉ cells ∧ s.grid.tileAt pos = .ok tile ∨ Refilled s cells pos tile := by
  induction cells generalizing s with
  | nil =>
    cases h
    exact .inl ⟨List.not_mem_nil, htile⟩
  | cons cell rest ih =>
    rw [List.map_cons, executeAll_cons] at h
    obtain ⟨reply, hreply, h⟩ := bind_eq_ok_iff.mp h
    obtain ⟨-, grid, drawn, hstate, hdrawn, hsize, hnextId⟩ :=
      place_eq_ok (hcells cell List.mem_cons_self) hreply
    have hrest : ∀ pos ∈ rest, pos.Within reply.state.grid.size := by
      intro pos hpos
      rw [hstate, hsize]
      exact hcells pos (List.mem_cons_of_mem _ hpos)
    rcases ih hrest h with ⟨hnot, htile⟩ | ⟨i, color, ⟨hat, hlast⟩, hcolor, rfl⟩
    · -- no later refill of the cell, so this one is the last, or none is
      rcases tileAt_of_place hreply htile with ⟨rfl, rfl⟩ | ⟨hne, htile⟩
      · refine .inr ⟨0, _, ⟨rfl, hnot⟩, ?_, rfl⟩
        rw [List.length_cons, colors_randomList_succ]
        rfl
      · exact .inl ⟨by simp [hne, hnot], htile⟩
    · refine .inr ⟨i + 1, color, ⟨hat, hlast⟩, ?_, ?_⟩
      · rw [hstate] at hcolor
        rw [List.length_cons, colors_randomList_succ, ← hdrawn, List.getElem?_cons_succ]
        exact hcolor
      · rw [hstate]
        show Grid.restingTile grid.size (grid.nextId + i) pos color = _
        rw [hsize, hnextId, Nat.add_assoc, Nat.add_comm 1 i]

/-- What refills leave depends on the score sheet alone. -/
theorem Refilled.congr {s t : Session σ} {cells : List Pos} {pos : Pos} {tile : Tile}
    (same : s.SameSheet t) (h : Refilled t cells pos tile) : Refilled s cells pos tile := by
  unfold Refilled at h ⊢
  rw [same.size_eq, same.nextId_eq, same.generator_eq] at h
  exact h

/-! ## Clearings -/

section Clearing

variable {s checked : Session σ} {k : Nat}

/-- A check that finds lines leaves the refills of their cells and the tally pending, two phases
later, and moves only tiles on those cells. -/
theorem clearing_of_check (hidle : s.timeline.isIdle = true)
    (hcheck : s.check = .ok ⟨checked, .ok k⟩) (hk : 1 ≤ k) :
    s.grid.uniformLines.length = k ∧ 0 < s.rules.phaseTicks ∧
      ∃ timeline, checked = { s with timeline } ∧ timeline.tick = s.timeline.tick ∧
        timeline.pending = (s.grid.lineCells.map Command.refill ++ [Command.tally k]).map
          (s.timeline.tick + 2 * s.rules.phaseTicks, ·) ∧
        ∀ c ∈ timeline.courses, ∃ pos ∈ s.grid.lineCells, ∃ tile,
          s.grid.tileAt pos = .ok tile ∧ tile.id = c.motion.tile := by
  obtain ⟨hanswer, hphase, added, hstate, hpending, hmoved⟩ := check_eq_ok hcheck
  obtain rfl : k = s.grid.uniformLines.length := Except.ok.inj hanswer
  refine ⟨rfl, hphase (List.length_pos_iff.mp hk), s.timeline.append added, hstate, rfl, ?_, ?_⟩
  · rw [Timeline.pending_append, Timeline.pending_of_isIdle hidle, hpending, List.nil_append,
      Clearing.commands_of_le hk]
    rfl
  · intro c hc
    rw [Timeline.courses_append, Timeline.courses_of_isIdle hidle, List.nil_append] at hc
    obtain ⟨line, hline, pos, hpos, htile⟩ := hmoved c hc
    exact ⟨pos, List.mem_flatMap.mpr ⟨line, hline, hpos⟩, htile⟩

/-- What the frame does in which a clearing ends: it refills the cells, scores the lines and makes
a check on the board it leaves. -/
theorem update_of_due_tally [Store σ] {t : Session σ} {cells : List Pos}
    (hcells : ∀ pos ∈ cells, pos.Within s.grid.size)
    (hdue : s.timeline.due = cells.map .refill ++ [.tally k]) (h : s.update = .ok t) :
    (∀ pos, pos.Within s.grid.size → ∃ tile, t.grid.tileAt pos = .ok tile ∧
      (pos ∉ cells ∧ s.coast.grid.tileAt pos = .ok tile ∨ Refilled s cells pos tile)) ∧
    t.score = min (s.score + k) Score.limit ∧
    ∃ refills refilled found, s.stepExecutions = refills ++ [(refilled, .tally k)] ∧
      (refilled.addScore k).grid = t.grid ∧ (refilled.addScore k).check = .ok found ∧
      found.answer = .ok t.grid.uniformLines.length := by
  obtain ⟨stepped, hstep, rfl⟩ := update_eq_ok h
  obtain ⟨refilled, hrefilled, hexecuted, found, hfound, rfl⟩ := step_of_due_tally hdue hstep
  have same := s.sameGame_animated
  rw [← same.size_eq] at hcells
  obtain ⟨grid, generator, hrefilledEq, -, hsize, -⟩ := executeAll_refills hcells hrefilled
  obtain ⟨highScore, host, hscored⟩ := refilled.addScore_eq k
  obtain ⟨hanswer, -, added, hstate, -⟩ := check_eq_ok hfound
  have hgrid : found.state.grid = refilled.grid := by rw [hstate, hscored]
  refine ⟨?_, ?_, _, refilled, found, hexecuted, ?_, hfound, ?_⟩
  · intro pos hpos
    have hwithin : pos.Within refilled.grid.size := by
      rw [hrefilledEq, hsize, same.size_eq]
      exact hpos
    obtain ⟨tile, htile⟩ := Grid.tileAt_eq_ok_of_within hwithin
    refine ⟨tile, ?_, ?_⟩
    · rw [hgrid]
      exact htile
    · exact (tileAt_of_refills hcells hrefilled htile).imp_right (Refilled.congr same.toSameSheet)
  · rw [hstate, hscored, hrefilledEq]
    rfl
  · rw [hstate]
  · rw [hanswer, hstate]

/-- What the last turn of a clearing of `k` lines leaves of a game. -/
structure Cleared [Store σ] (s : Session σ) (k : Nat) (last : Turn σ) : Prop where
  /-- Every tile that is on no line is as it was. -/
  others : ∀ pos tile, pos ∉ s.grid.lineCells → s.grid.tileAt pos = .ok tile →
    last.after.grid.tileAt pos = .ok tile
  /-- Every cell of the lines has a new tile. -/
  refilled : ∀ pos ∈ s.grid.lineCells, ∃ tile,
    last.after.grid.tileAt pos = .ok tile ∧ Refilled s s.grid.lineCells pos tile
  score_eq : last.after.score = min (s.score + k) Score.limit
  /-- The check that is made after the refills sees the board that the turn leaves. -/
  checks : ∃ refills refilled found, last.executed = refills ++ [(refilled, .tally k)] ∧
    (refilled.addScore k).grid = last.after.grid ∧ (refilled.addScore k).check = .ok found ∧
    found.answer = .ok last.after.grid.uniformLines.length

/-- A clearing leaves alone every tile that is on none of its lines, while it goes on and in the
tick at which it ends. -/
theorem tileAt_of_clearing (hids : s.grid.ids.Nodup) {timeline : Timeline Command}
    (hmoved : ∀ c ∈ timeline.courses, ∃ pos ∈ s.grid.lineCells, ∃ tile,
      s.grid.tileAt pos = .ok tile ∧ tile.id = c.motion.tile)
    {pos : Pos} {tile : Tile} (hpos : pos ∉ s.grid.lineCells) (htile : s.grid.tileAt pos = .ok tile)
    (n : Nat) : (coast^[n] { s with timeline }).grid.tileAt pos = .ok tile := by
  refine (coasted_iterate { s with timeline } n).tileAt_eq hids pos tile htile ?_
  intro c hc hid
  obtain ⟨cell, hcell, other, hother, hcourse⟩ := hmoved c hc
  have heq : pos = cell := Grid.eq_of_id_eq hids htile hother (hid.symm.trans hcourse.symm)
  exact hpos (heq ▸ hcell)

/-- The frame in which a clearing ends, after any number of frames in which the game has coasted. -/
theorem cleared_of_update [Store σ] {timeline : Timeline Command} {n : Nat} {u t : Session σ}
    (hids : s.grid.ids.Nodup)
    (hmoved : ∀ c ∈ timeline.courses, ∃ pos ∈ s.grid.lineCells, ∃ tile,
      s.grid.tileAt pos = .ok tile ∧ tile.id = c.motion.tile)
    (hu : u = coast^[n] { s with timeline })
    (hdue : u.timeline.due = s.grid.lineCells.map .refill ++ [.tally k]) (h : u.update = .ok t) :
    Cleared s k (updateTurn u t) := by
  have hcoasted := coasted_iterate { s with timeline } n
  rw [← hu] at hcoasted
  have hcells : ∀ pos ∈ s.grid.lineCells, pos.Within u.grid.size := by
    intro pos hpos
    rw [hcoasted.size_eq]
    exact Grid.within_of_mem_lineCells hpos
  obtain ⟨htiles, hscore, hchecks⟩ := update_of_due_tally hcells hdue h
  rw [hcoasted.size_eq] at htiles
  refine ⟨?_, ?_, hcoasted.score_eq ▸ hscore, hchecks⟩
  · intro pos tile hpos htile
    have hframe := tileAt_of_clearing hids hmoved hpos htile (n + 1)
    rw [Function.iterate_succ_apply', ← hu] at hframe
    obtain ⟨kept, hkept, ⟨-, hcame⟩ | ⟨i, -, ⟨hat, -⟩, -⟩⟩ :=
      htiles pos (Grid.within_of_tileAt_eq_ok htile)
    · exact hkept.trans (hcame.symm.trans hframe)
    · exact absurd (List.mem_of_getElem? hat) hpos
  · intro pos hpos
    obtain ⟨tile, htile, ⟨hnot, -⟩ | hrefilled⟩ := htiles pos (Grid.within_of_mem_lineCells hpos)
    · exact absurd hpos hnot
    · have hrefilled : Refilled { s with timeline } s.grid.lineCells pos tile :=
        hrefilled.congr hcoasted.toSameSheet
      exact ⟨tile, htile, hrefilled⟩

/-- A clearing from its beginning to its end, in any game at rest on a board of distinct ids in
which a check has found lines. For two phases no cell has another tile or another colour, and the
score stays. With the next frame every tile that is on no line is as it was; every cell of the
lines has a new tile, at rest, of the colour that was drawn for the last place at which the cell
stands when the lines are listed cell by cell; the lines have been added to the score; and the
check that is made in this frame has been made on the board that the frame leaves. -/
theorem clearing_refills [Store σ] (hidle : s.timeline.isIdle = true) (hids : s.grid.ids.Nodup)
    (hcheck : s.check = .ok ⟨checked, .ok k⟩) (hk : 1 ≤ k)
    (hroom : checked.run (List.replicate (2 * s.rules.phaseTicks + 1) .update) ≠
      .error .sumTooLarge) :
    s.grid.uniformLines.length = k ∧
      (∀ j ≤ 2 * s.rules.phaseTicks, ∃ turns t,
        checked.run (List.replicate j .update) = .ok (turns, t) ∧
          s.grid.SameFaces t.grid ∧ t.score = s.score) ∧
      ∃ turns last,
        checked.run (List.replicate (2 * s.rules.phaseTicks + 1) .update) =
          .ok (turns ++ [last], last.after) ∧ Cleared s k last := by
  obtain ⟨hlength, hphase, timeline, rfl, htick, hpending, hmoved⟩ :=
    clearing_of_check hidle hcheck hk
  obtain ⟨turns, t, hrun⟩ := run_of_room (by exact hphase) hroom
  obtain ⟨earlier, u, hearlier, hupdate, rfl⟩ := run_updates_succ hrun
  have hend : timeline.tick + 2 * s.rules.phaseTicks =
      s.timeline.tick + 2 * s.rules.phaseTicks := by rw [htick]
  refine ⟨hlength, ?_, earlier, updateTurn u t, hrun, ?_⟩
  · intro j hj
    obtain ⟨before, v, later, hbefore, -⟩ := run_updates_of_le hj hearlier
    obtain rfl := coasts_until_due hpending (hend ▸ Nat.add_le_add_left hj _) hbefore
    have same := (coasted_iterate { s with timeline } j).toSameGame
    exact ⟨before, _, hbefore, same.sameFaces, same.score_eq⟩
  · have hu := coasts_until_due hpending (Nat.le_of_eq hend) hearlier
    have hdue := due_iterate_coast (s := { s with timeline }) hpending (2 * s.rules.phaseTicks)
    rw [if_pos hend.symm, ← hu] at hdue
    exact cleared_of_update hids hmoved hu hdue hupdate

/-- The colours of a board on which the first row and the first column are red. -/
def elbowColor : Pos → Color
  | ⟨0, _⟩ | ⟨_, 0⟩ => .red
  | ⟨1, 1⟩ | ⟨2, 2⟩ => .blue
  | _ => .green

/-- The board with these colours. -/
def elbowGrid : Grid where
  size := 3
  tiles := Grid.tabulateTiles 3 elbowColor
  nextId := 9
  tiles_size := Array.size_ofFn

/-- A new game on this board, in which every phase takes one tick. -/
def elbowGame : Session MemoryStore := start { phaseTicks := 1 } .inMemory elbowGrid ⟨0⟩

/-- Two red lines are cleared. The cell at which they cross is listed at two places and has the tile
of the second; the opposite corner keeps its tile. -/
theorem clearing_refills_elbowGame :
    ∃ checked turns t, elbowGame.check = .ok ⟨checked, .ok 2⟩ ∧
      checked.run (List.replicate 3 .update) = .ok (turns, t) ∧ t.score = 2 ∧
      elbowGame.grid.lineCells = [⟨0, 0⟩, ⟨1, 0⟩, ⟨2, 0⟩, ⟨0, 0⟩, ⟨0, 1⟩, ⟨0, 2⟩] ∧
      LastAt elbowGame.grid.lineCells ⟨0, 0⟩ 3 ∧
      (∃ tile, t.grid.tileAt ⟨0, 0⟩ = .ok tile ∧
        Refilled elbowGame elbowGame.grid.lineCells ⟨0, 0⟩ tile) ∧
      ∃ tile, elbowGame.grid.tileAt ⟨2, 2⟩ = .ok tile ∧ t.grid.tileAt ⟨2, 2⟩ = .ok tile := by
  have hcells : elbowGame.grid.lineCells = [⟨0, 0⟩, ⟨1, 0⟩, ⟨2, 0⟩, ⟨0, 0⟩, ⟨0, 1⟩, ⟨0, 2⟩] := by
    decide +kernel
  obtain ⟨⟨checked, answer⟩, hcheck, hend⟩ := exists_of_any_toOption (x := elbowGame.check)
    (fun reply => decide (reply.answer.toOption = some 2) &&
      (reply.state.run (List.replicate 3 .update)).toOption.isSome) (by decide +kernel)
  rw [Bool.and_eq_true, decide_eq_true_eq] at hend
  obtain ⟨hanswer, hresult⟩ := hend
  obtain rfl : answer = .ok 2 := eq_ok_of_toOption hanswer
  obtain ⟨-, -, turns, last, hrun, hcleared⟩ := clearing_refills rfl (by decide +kernel) hcheck
    (by decide) (ne_error_of_isSome_toOption hresult)
  obtain ⟨tile, htile⟩ : ∃ tile, elbowGame.grid.tileAt ⟨2, 2⟩ = .ok tile :=
    Grid.tileAt_eq_ok_of_within (by decide)
  refine ⟨checked, _, last.after, hcheck, hrun, hcleared.score_eq, hcells, ?_, ?_, tile, htile, ?_⟩
  · rw [hcells]
    decide
  · exact hcleared.refilled ⟨0, 0⟩ (by rw [hcells]; decide)
  · exact hcleared.others ⟨2, 2⟩ tile (by rw [hcells]; decide) htile

end Clearing

end Session

end OrbPuzzle
