import OrbPuzzle.Proofs.Places
import OrbPuzzle.Proofs.Session.Identity
import OrbPuzzle.Proofs.Session.Turn
import OrbPuzzle.Proofs.Timeline.Landing

/-!
# The board at rest

When nothing is in progress, every orb has come to rest on its cell: its scale is exactly that of an
orb at rest, or of a selected one, and its centre is at a place of its bands. While orbs move, the
same is true of where they land, and that is what a run keeps (`Homing`).

Orbs of a line that is being cleared are the exception, since they slide off the board and never
come back. But each of their cells has a refill pending, and the new orb rests on its cell from the
start, so nothing is claimed of a cell that waits for its refill. A step first plays its tick and
then carries out commands, and after it the clock may move on: all of this is followed for the tick
of the step and for the next one at once.
-/

namespace OrbPuzzle.Session

variable {σ : Type}

/-- The scale that an orb on a cell should come to. -/
def scaleAt (s : Session σ) (p : Pos) : Single :=
  if s.selected = some p then s.rules.selectedScale else s.rules.restScale

/-- From a tick on, a tile lands on a cell: with the scale it should have there, and its centre at
places of the cell's two bands. -/
structure Lands (s : Session σ) (tick : Nat) (p : Pos) (tile : Tile) : Prop where
  orderly : ∀ field, Orderly s.timeline.courses tile.id field
  scale_eq : landing tick s.timeline.courses tile .scale = s.scaleAt p
  reachedX : Reached s.rules s.grid.size p.col (landing tick s.timeline.courses tile .centerX)
  reachedY : Reached s.rules s.grid.size p.row (landing tick s.timeline.courses tile .centerY)

/-- A tile is as it should be on a cell. -/
structure Rests (s : Session σ) (p : Pos) (tile : Tile) : Prop where
  scale_eq : tile.scale = s.scaleAt p
  reachedX : Reached s.rules s.grid.size p.col tile.centerX
  reachedY : Reached s.rules s.grid.size p.row tile.centerY

/-- Every tile lands on its cell, unless the cell has a refill pending or among the given commands.
-/
def Homing (s : Session σ) (tick : Nat) (commands : List Command) : Prop :=
  ∀ p tile, s.grid.tileAt p = .ok tile → .refill p ∉ commands →
    (∀ due, (due, .refill p) ∉ s.timeline.pending) → s.Lands tick p tile

variable {s t : Session σ} {tick : Nat} {p : Pos} {tile : Tile} {commands : List Command}

/-- Courses for other tiles do not matter. -/
theorem Lands.append {added : List Course} (h : s.Lands tick p tile)
    (hcourses : t.timeline.courses = s.timeline.courses ++ added)
    (hother : ∀ c ∈ added, c.motion.tile ≠ tile.id) (hscale : t.scaleAt p = s.scaleAt p)
    (hrules : t.rules = s.rules) (hsize : t.grid.size = s.grid.size) : t.Lands tick p tile := by
  have hlanding : ∀ field, landing tick t.timeline.courses tile field =
      landing tick s.timeline.courses tile field := by
    intro field
    rw [hcourses]
    exact landing_append_of_forall_not fun c hc _ hmoves => hother c hc hmoves.1
  refine ⟨?_, ?_, ?_, ?_⟩
  · intro field
    rw [hcourses]
    refine List.pairwise_append.mpr ⟨h.orderly field, ?_, ?_⟩
    · exact List.pairwise_of_forall_mem_list fun a ha _ _ hmoves => absurd hmoves.1 (hother a ha)
    · exact fun _ _ b hb _ hmoves => absurd hmoves.1 (hother b hb)
  · rw [hlanding, hscale, h.scale_eq]
  · rw [hlanding, hrules, hsize]
    exact h.reachedX
  · rw [hlanding, hrules, hsize]
    exact h.reachedY

/-- For a tile it matters only which courses there are, what is selected, and the kind of board. -/
theorem Lands.congr (h : s.Lands tick p tile)
    (hcourses : t.timeline.courses = s.timeline.courses) (hselected : t.selected = s.selected)
    (hrules : t.rules = s.rules) (hsize : t.grid.size = s.grid.size) : t.Lands tick p tile := by
  refine h.append (hcourses.trans (List.append_nil _).symm) (fun _ hc => nomatch hc) ?_ hrules hsize
  rw [scaleAt, scaleAt, hselected, hrules]

/-- A tile at rest that no course names stays as it is. -/
theorem Rests.lands (h : s.Rests p tile)
    (hother : ∀ c ∈ s.timeline.courses, c.motion.tile ≠ tile.id) : s.Lands tick p tile := by
  have hlanding : ∀ field, landing tick s.timeline.courses tile field = tile.get field :=
    fun _ => landing_of_forall_not fun c hc _ hmoves => hother c hc hmoves.1
  refine ⟨?_, (hlanding _).trans h.scale_eq, ?_, ?_⟩
  · exact fun _ => List.pairwise_of_forall_mem_list
      fun a ha _ _ hmoves => absurd hmoves.1 (hother a ha)
  · rw [hlanding]
    exact h.reachedX
  · rw [hlanding]
    exact h.reachedY

/-- A tile that was just put on a cell which is not selected rests there. -/
theorem rests_restingTile (id : TileId) (color : Color)
    (hsize : s.grid.size = s.rules.gridSize) (hp : p.Within s.grid.size)
    (hfree : s.selected ≠ some p) :
    s.Rests p (Grid.restingTile s.grid.size id p color) := by
  constructor
  · simp only [scaleAt, if_neg hfree, Rules.restScale, ← hsize, Grid.restingTile]
  · simp only [Grid.restingTile]
    exact .center hp.1
  · simp only [Grid.restingTile]
    exact .center hp.2

/-- In an idle game nothing moves any more, and nothing waits. -/
theorem Homing.rests (h : s.Homing tick []) (hidle : s.timeline.isIdle = true)
    (htile : s.grid.tileAt p = .ok tile) : s.Rests p tile := by
  have hfree : ∀ due, (due, .refill p) ∉ s.timeline.pending := by
    simp [Timeline.pending_of_isIdle hidle]
  obtain ⟨-, hscale, hx, hy⟩ := h p tile htile (by simp) hfree
  rw [Timeline.courses_of_isIdle hidle] at hscale hx hy
  exact ⟨hscale, hx, hy⟩

/-! ## Commands -/

theorem homing_of_check {reply : Reply (Session σ) Nat} (hids : s.grid.ids.Nodup)
    (h : s.Homing tick commands) (hcheck : s.check = .ok reply) :
    reply.state.Homing tick commands := by
  obtain ⟨-, -, added, hstate, hpending, hmoved⟩ := check_eq_ok hcheck
  intro p tile htile hcommands hfree
  rw [hstate] at htile hfree ⊢
  simp only [Timeline.pending_append, hpending, List.mem_append, not_or] at hfree
  refine (h p tile htile hcommands fun due => (hfree due).1).append (s.timeline.courses_append _)
    ?_ rfl rfl rfl
  -- a course that names the tile would put its cell on a line, and give it a refill
  rintro c hc heq
  obtain ⟨line, hline, q, hq, other, hother, hid⟩ := hmoved c hc
  obtain rfl := Grid.eq_of_id_eq hids htile hother (heq.symm.trans hid.symm)
  apply (hfree _).2
  refine List.mem_map.mpr ⟨.refill p, ?_, rfl⟩
  rw [Clearing.commands_of_le (List.length_pos_of_mem hline), Clearing.refills]
  exact List.mem_append_left _ (List.mem_map_of_mem (List.mem_flatMap.mpr ⟨line, hline, hq⟩))

/-- A new orb rests on its cell, and no course names it. -/
theorem homing_of_place {pos : Pos} {draw : Color × Generator} {reply : Reply (Session σ) Unit}
    (hs : Numbered s.rules.gridSize s) (hfree : s.selected ≠ some pos)
    (h : s.Homing tick (.refill pos :: commands)) (hplace : s.place pos draw = .ok reply) :
    reply.state.Homing tick commands := by
  obtain ⟨answer, hanswer, hreply⟩ := bind_eq_ok_iff.mp hplace
  obtain ⟨hoff, e, rfl⟩ | ⟨i, grid, hslot, rfl, hsize, -, htiles⟩ := Grid.respawn_cases hanswer
  · obtain rfl := pure_eq_ok_iff.mp hreply
    intro p tile htile hcommands hpending
    have hne : p ≠ pos := by
      rintro rfl
      exact hoff (Grid.within_of_tileAt_eq_ok htile)
    exact (h p tile htile (by simp [hne, hcommands]) hpending).congr rfl rfl rfl rfl
  · obtain rfl := pure_eq_ok_iff.mp hreply
    intro p tile htile hcommands hpending
    obtain ⟨rfl, rfl⟩ | ⟨hne, htile⟩ := Grid.tileAt_of_set hslot hsize htiles htile
    · have hrests := rests_restingTile s.grid.nextId draw.1 hs.size_eq
        (Grid.within_of_slot_eq_ok hslot) hfree
      refine (hrests.lands fun c hc => ?_).congr rfl rfl rfl hsize
      exact Nat.ne_of_lt (hs.course_lt c hc)
    · exact (h p tile htile (by simp [hne, hcommands]) hpending).congr rfl rfl rfl hsize

/-- Carrying out a command does not change the selection. -/
theorem selected_of_execute [Store σ] {command : Command} {reply : Reply (Session σ) Unit}
    (h : s.execute command = .ok reply) : reply.state.selected = s.selected := by
  cases command with
  | check =>
    obtain ⟨found, hfound, rfl⟩ := execute_check_eq_ok h
    obtain ⟨-, -, added, hstate, -, -⟩ := check_eq_ok hfound
    simp [Reply.mapAnswer, hstate]
  | refill pos =>
    obtain ⟨grid, hstate⟩ := state_of_place h
    rw [hstate]
  | tally lines =>
    obtain ⟨found, hfound, rfl⟩ := execute_tally_eq_ok h
    obtain ⟨-, -, added, hstate, -, -⟩ := check_eq_ok hfound
    obtain ⟨highScore, host, hscored⟩ := s.addScore_eq lines
    simp [Reply.mapAnswer, hstate, hscored]

theorem homing_of_execute [Store σ] {command : Command} {reply : Reply (Session σ) Unit}
    (hs : Numbered s.rules.gridSize s) (hfree : ∀ p, command = .refill p → s.selected ≠ some p)
    (h : s.Homing tick (command :: commands)) (hexecute : s.execute command = .ok reply) :
    reply.state.Homing tick commands := by
  cases command with
  | check =>
    obtain ⟨found, hfound, rfl⟩ := execute_check_eq_ok hexecute
    refine homing_of_check hs.nodup ?_ hfound
    intro p tile htile hcommands
    exact h p tile htile (by simp [hcommands])
  | refill pos => exact homing_of_place hs (hfree pos rfl) h hexecute
  | tally lines =>
    obtain ⟨found, hfound, rfl⟩ := execute_tally_eq_ok hexecute
    obtain ⟨highScore, host, hscored⟩ := s.addScore_eq lines
    rw [hscored] at hfound
    refine homing_of_check (by exact hs.nodup) ?_ hfound
    intro p tile htile hcommands hpending
    exact (h p tile htile (by simp [hcommands]) hpending).congr rfl rfl rfl rfl

theorem homing_of_executeAll [Store σ] (hs : Numbered s.rules.gridSize s)
    (hfree : ∀ p, .refill p ∈ commands → s.selected ≠ some p) (h : s.Homing tick commands)
    (hexecute : s.executeAll commands = .ok t) : t.Homing tick [] := by
  induction commands generalizing s with
  | nil =>
    obtain rfl := pure_eq_ok_iff.mp hexecute
    exact h
  | cons command rest ih =>
    rw [executeAll_cons] at hexecute
    obtain ⟨reply, hreply, hexecute⟩ := bind_eq_ok_iff.mp hexecute
    have hchanges := changes_of_execute hreply
    refine ih ?_ ?_ (homing_of_execute hs ?_ h hreply) hexecute
    · rw [hchanges.rules_eq]
      exact (hs.changes hchanges).1
    · intro p hp
      rw [selected_of_execute hreply]
      exact hfree p (List.mem_cons_of_mem _ hp)
    · rintro p rfl
      exact hfree p List.mem_cons_self

/-! ## Steps -/

/-- Playing a tick leaves every tile on its way. The refills that are due then are still to come. -/
theorem homing_animated {next : Nat} (hle : s.timeline.tick ≤ next)
    (hnext : next ≤ s.timeline.tick + 1) (hids : s.grid.ids.Nodup)
    (hfrom : s.timeline.PendingFrom s.timeline.tick) (h : s.Homing s.timeline.tick []) :
    s.animated.Homing next s.timeline.due := by
  intro p tile htile hdue hpending
  obtain ⟨old, hold, rfl⟩ := s.timeline.tileAt_of_animate hids htile
  have hfree : ∀ due, (due, .refill p) ∉ s.timeline.pending := by
    intro due hmem
    rcases Nat.eq_or_lt_of_le (hfrom _ hmem) with heq | hlt
    · apply hdue
      rw [Timeline.due_eq_pending]
      exact List.mem_map.mpr ⟨_, List.mem_filter.mpr ⟨hmem, decide_eq_true heq.symm⟩, rfl⟩
    · apply hpending due
      show _ ∈ s.timeline.played.pending
      rw [Timeline.pending_played]
      exact List.mem_filter.mpr ⟨hmem, decide_eq_true hlt⟩
  obtain ⟨horderly, hscale, hx, hy⟩ := h p old hold (by simp) hfree
  have hcourses : s.animated.timeline.courses =
      s.timeline.courses.filter (s.timeline.tick ≤ ·.stop) := s.timeline.courses_played
  have hid := (Timeline.foldl_shift s.timeline.tick s.timeline.courses old .scale).1
  have hlanding : ∀ field, landing next s.animated.timeline.courses
      (s.timeline.courses.foldl (Course.shift s.timeline.tick) old) field =
        landing s.timeline.tick s.timeline.courses old field := by
    intro field
    rw [hcourses, landing_filter hle]
    refine landing_foldl_shift hle hnext (fun c hc => ?_) (horderly field)
    exact Nat.le_of_lt (Timeline.start_lt_stop_of_mem_courses hc)
  have hsize : s.animated.grid.size = s.grid.size := (s.timeline.sameFaces_animate s.grid).size_eq
  refine ⟨?_, (hlanding _).trans hscale, ?_, ?_⟩
  · intro field
    rw [hcourses, hid]
    exact (horderly field).filter _
  · rw [hlanding, hsize]
    exact hx
  · rw [hlanding, hsize]
    exact hy

/-- A step leaves every tile on its way, seen at its tick or at the next. -/
theorem homing_of_step [Store σ] {next : Nat} (hle : s.timeline.tick ≤ next)
    (hnext : next ≤ s.timeline.tick + 1) (hpaced : s.WellPaced)
    (hs : Numbered s.rules.gridSize s) (h : s.Homing s.timeline.tick []) (hstep : s.step = .ok t) :
    t.Homing next [] := by
  rw [step_eq_executeAll] at hstep
  have hplayed : Numbered s.rules.gridSize s.animated := (hs.change .play).1
  refine homing_of_executeAll hplayed ?_
    (homing_animated hle hnext hs.nodup hpaced.pendingFrom h) hstep
  -- if a refill is due, something is pending, and then nothing is selected
  intro p hp
  rw [Timeline.due_eq_pending] at hp
  obtain ⟨entry, hentry, -⟩ := List.mem_map.mp hp
  exact hpaced.selected_ne_some (List.ne_nil_of_mem (List.mem_of_mem_filter hentry)) p

/-! ## Clicks -/

/-- The last value of a change of scale is what a phase leads to. -/
theorem last_resizeCourse (rules : Rules) (start : Nat) (tile : TileId) (source target : Single) :
    (resizeCourse rules start tile source target).last =
      rules.arrival .windupOvershoot source target := by
  simp only [Course.last, Course.valueAt, resizeCourse, Nat.add_sub_cancel_left, Motion.valueAt,
    Rules.arrival]

theorem last_moveCourse (rules : Rules) (start : Nat) (mover target : Tile) (field : Field) :
    (moveCourse rules start mover target field).last =
      rules.arrival .easeBoth (mover.get field) (target.get field) := by
  simp only [Course.last, Course.valueAt, moveCourse, Nat.add_sub_cancel_left, Motion.valueAt,
    Rules.arrival]

/-- A swap brings both orbs back to their scale at rest. -/
theorem landing_swapCourses_scale (rules : Rules) (tick : Nat) {first second : Tile}
    (hne : first.id ≠ second.id) :
    landing tick (swapCourses rules tick first second) first .scale =
        rules.arrival .windupOvershoot rules.selectedScale rules.restScale ∧
      landing tick (swapCourses rules tick first second) second .scale =
        rules.arrival .windupOvershoot rules.selectedScale rules.restScale := by
  have hgrown : tick ≤ tick + rules.phaseTicks + rules.phaseTicks + rules.phaseTicks := by omega
  simp only [landing, swapCourses, List.foldl_cons, List.foldl_nil]
  constructor
  · rw [if_pos ⟨hgrown, rfl, rfl⟩, last_resizeCourse]
  · rw [if_neg (fun h => hne h.2.1), if_pos ⟨hgrown, rfl, rfl⟩, last_resizeCourse]

/-- A swap brings each of the two orbs to where the other one is. -/
theorem landing_swapCourses_of_ne_scale (rules : Rules) (tick : Nat) {first second : Tile}
    (field : Field) (hne : first.id ≠ second.id) (hfield : field ≠ .scale) :
    landing tick (swapCourses rules tick first second) first field =
        rules.arrival .easeBoth (first.get field) (second.get field) ∧
      landing tick (swapCourses rules tick first second) second field =
        rules.arrival .easeBoth (second.get field) (first.get field) := by
  have hmoved : tick ≤ tick + rules.phaseTicks + rules.phaseTicks := by omega
  cases field with
  | scale => exact absurd rfl hfield
  | centerX | centerY =>
    simp [landing, swapCourses, moves_resizeCourse, moves_moveCourse, stop_moveCourse,
      last_moveCourse, hne, hne.symm, hmoved]

/-- In a swap, what is added later does not end earlier. -/
theorem orderly_swapCourses (rules : Rules) (first second : Tile) (id : TileId) (field : Field) :
    Orderly (swapCourses rules tick first second) id field := by
  have hstops : (swapCourses rules tick first second).Pairwise fun a b => a.stop ≤ b.stop := by
    simp only [swapCourses, List.pairwise_cons, List.Pairwise.nil, List.mem_cons, List.not_mem_nil,
      or_false, forall_eq_or_imp, forall_eq, false_implies, implies_true, and_true,
      stop_resizeCourse, stop_moveCourse]
    omega
  exact hstops.imp fun h _ _ => h

/-- Changing the scale of an orb takes it to the new scale and nowhere else. -/
theorem landing_resizeCourse {rules : Rules} {source target : Single} (field : Field) :
    landing tick [resizeCourse rules tick tile.id source target] tile field =
      if .scale = field then rules.arrival .windupOvershoot source target else tile.get field := by
  simp only [landing, List.foldl_cons, List.foldl_nil, moves_resizeCourse, stop_resizeCourse,
    last_resizeCourse, Nat.le_add_right, true_and]

/-- Selecting an orb and letting it go. -/
theorem homing_of_resized {pos : Pos} {resized : Transition Command} {selected : Option Pos}
    {source target : Single} (hids : s.grid.ids.Nodup) (hidle : s.timeline.isIdle = true)
    (h : s.Homing s.timeline.tick []) (htile : s.grid.tileAt pos = .ok tile)
    (hcourse : resized.course? =
      some (resizeCourse s.rules s.timeline.tick tile.id source target))
    (harrival : s.rules.arrival .windupOvershoot source target = scaleAt { s with selected } pos)
    (hother : ∀ p, p ≠ pos → scaleAt { s with selected } p = s.scaleAt p) :
    Homing { s with timeline := s.timeline.push resized, selected } s.timeline.tick [] := by
  have hcourses : (s.timeline.push resized).courses =
      [resizeCourse s.rules s.timeline.tick tile.id source target] := by
    rw [Timeline.push, Timeline.courses_append, Timeline.courses_of_isIdle hidle]
    simp [hcourse]
  intro p other hat _ _
  replace hat : s.grid.tileAt p = .ok other := hat
  obtain ⟨hscale, hx, hy⟩ := h.rests hidle hat
  by_cases hp : p = pos
  · subst hp
    obtain rfl : tile = other := Except.ok.inj (htile.symm.trans hat)
    refine ⟨?_, ?_, ?_, ?_⟩
    · intro field
      rw [hcourses]
      exact List.pairwise_singleton _ _
    · rw [hcourses, landing_resizeCourse, if_pos rfl]
      exact harrival
    · rw [hcourses, landing_resizeCourse, if_neg (by decide)]
      exact hx
    · rw [hcourses, landing_resizeCourse, if_neg (by decide)]
      exact hy
  · refine Rests.lands ⟨hscale.trans (hother p hp).symm, hx, hy⟩ ?_
    intro c hc heq
    rw [hcourses, List.mem_singleton] at hc
    subst hc
    exact hp (Grid.eq_of_id_eq hids hat htile heq.symm)

/-- In a swap a tile lands where the other one rests. -/
theorem lands_of_swapCourses {first second mover goal : Tile} {q : Pos} (hexact : s.rules.Exact)
    (hcourses : t.timeline.courses = swapCourses s.rules tick first second)
    (hrules : t.rules = s.rules) (hsize : t.grid.size = s.grid.size) (hfree : t.selected = none)
    (hscale : landing tick (swapCourses s.rules tick first second) mover .scale =
      s.rules.arrival .windupOvershoot s.rules.selectedScale s.rules.restScale)
    (hmoved : ∀ field, field ≠ .scale →
      landing tick (swapCourses s.rules tick first second) mover field =
        s.rules.arrival .easeBoth (mover.get field) (goal.get field))
    (hmover : s.Rests p mover) (hgoal : s.Rests q goal) : t.Lands tick q mover := by
  refine ⟨?_, ?_, ?_, ?_⟩
  · rw [hcourses]
    exact orderly_swapCourses _ _ _ _
  · rw [hcourses, hscale, hexact.grows, scaleAt, hfree, hrules, if_neg (by simp)]
  · rw [hcourses, hmoved .centerX (by decide), hrules, hsize]
    exact .moved hmover.reachedX hgoal.reachedX
  · rw [hcourses, hmoved .centerY (by decide), hrules, hsize]
    exact .moved hmover.reachedY hgoal.reachedY

/-- Swapping two orbs that are at rest. -/
theorem homing_of_swapped {pos chosen : Pos} {first second : Tile} {grid : Grid}
    {added : List (Transition Command)} (hexact : s.rules.Exact) (hids : s.grid.ids.Nodup)
    (hidle : s.timeline.isIdle = true) (h : s.Homing s.timeline.tick [])
    (hheld : s.selected = some chosen) (hne : chosen ≠ pos)
    (hfirst : s.grid.tileAt chosen = .ok first) (hsecond : s.grid.tileAt pos = .ok second)
    (hswap : s.grid.swap chosen pos = .ok grid)
    (hadded : added.filterMap Transition.course? =
      swapCourses s.rules s.timeline.tick first second) :
    Homing { s with timeline := s.timeline.append added, grid, selected := none }
      s.timeline.tick [] := by
  have hcourses : (s.timeline.append added).courses =
      swapCourses s.rules s.timeline.tick first second := by
    rw [Timeline.courses_append, Timeline.courses_of_isIdle hidle, hadded, List.nil_append]
  have hdiffer : first.id ≠ second.id :=
    fun heq => hne (Grid.eq_of_id_eq hids hfirst hsecond heq)
  have hsize : grid.size = s.grid.size := (Grid.swap_eq_ok hswap).1
  have hscale := landing_swapCourses_scale s.rules s.timeline.tick hdiffer
  have hmoved := fun field =>
    landing_swapCourses_of_ne_scale s.rules s.timeline.tick field hdiffer
  intro p tile hat _ _
  obtain ⟨rfl, hat⟩ | ⟨rfl, hat⟩ | ⟨hchosen, hpos, hat⟩ := Grid.tileAt_of_swap hswap hat
  · obtain rfl : second = tile := Except.ok.inj (hsecond.symm.trans hat)
    exact lands_of_swapCourses hexact hcourses rfl hsize rfl hscale.2
      (fun field hfield => (hmoved field hfield).2) (h.rests hidle hsecond) (h.rests hidle hfirst)
  · obtain rfl : first = tile := Except.ok.inj (hfirst.symm.trans hat)
    exact lands_of_swapCourses hexact hcourses rfl hsize rfl hscale.1
      (fun field hfield => (hmoved field hfield).1) (h.rests hidle hfirst) (h.rests hidle hsecond)
  · -- no course of the swap names a tile on another cell, and none of those is selected
    obtain ⟨hrest, hx, hy⟩ := h.rests hidle hat
    have hother : s.selected ≠ some p := by
      rw [hheld]
      exact fun heq => hchosen (Option.some.inj heq).symm
    rw [scaleAt, if_neg hother] at hrest
    refine Rests.lands ⟨hrest.trans (if_neg (by simp)).symm, hsize ▸ hx, hsize ▸ hy⟩ ?_
    intro c hc heq
    rw [hcourses] at hc
    rcases tile_of_mem_swapCourses hc with hc | hc
    · exact hchosen (Grid.eq_of_id_eq hids hat hfirst (heq.symm.trans hc))
    · exact hpos (Grid.eq_of_id_eq hids hat hsecond (heq.symm.trans hc))

theorem homing_of_clicked {pos : Pos} {reply : Reply (Session σ) ClickOutcome}
    (hexact : s.rules.Exact) (hids : s.grid.ids.Nodup) (h : s.Homing s.timeline.tick [])
    (hclicked : Clicked s pos reply) :
    reply.state.Homing reply.state.timeline.tick [] := by
  cases hclicked with
  | ignored busy => exact h
  | missed idle error => exact h
  | @selected idle free within resized silent tile tileAt course =>
    refine homing_of_resized hids idle h tileAt course ?_ ?_
    · rw [hexact.shrinks, scaleAt, if_pos rfl]
    · intro p hp
      have hother : some pos ≠ some p := fun heq => hp (Option.some.inj heq).symm
      rw [scaleAt, if_neg hother, scaleAt, free, if_neg (by simp)]
  | @cancelled idle held resized silent tile tileAt course =>
    refine homing_of_resized hids idle h tileAt course ?_ ?_
    · rw [hexact.grows, scaleAt, if_neg (by simp)]
    · intro p hp
      have hother : some pos ≠ some p := fun heq => hp (Option.some.inj heq).symm
      rw [scaleAt, if_neg (by simp), scaleAt, held, if_neg hother]
  | @swapped idle chosen held added grid swap pending first second different tileAtChosen tileAt
      courses =>
    exact homing_of_swapped hexact hids idle h held different tileAtChosen tileAt swap courses

/-! ## Every run -/

/-- Every tile is on its way home, and the game is such that this can go on. -/
structure Steady (rules : Rules) (s : Session σ) : Prop where
  rules_eq : s.rules = rules
  paced : s.WellPaced
  numbered : Numbered s.rules.gridSize s
  homing : s.Homing s.timeline.tick []

variable [Store σ] {rules : Rules} {host : Host σ} {grid : Grid} {generator : Generator}

theorem steady_start {color : Pos → Color} (hgrid : Grid.tabulate rules.gridSize color = .ok grid) :
    Steady rules (start rules host grid generator) := by
  have hnumbered := numbered_start hgrid rules host generator
  refine ⟨rfl, wellPaced_start rules host grid generator, hnumbered, ?_⟩
  intro p tile htile _ _
  obtain ⟨id, rfl⟩ := Grid.tileAt_tabulate hgrid htile
  rw [← hnumbered.size_eq]
  refine Rests.lands ?_ (fun _ hc => nomatch hc)
  exact rests_restingTile _ _ hnumbered.size_eq (Grid.within_of_tileAt_eq_ok htile)
    (by simp [start])

/-- A call leaves every tile on its way. -/
theorem Steady.perform {call : Call} {turn : Turn σ} (hexact : rules.Exact) (hs : Steady rules s)
    (h : s.perform call = .ok turn) : Steady rules turn.after := by
  obtain ⟨rfl, hpaced, hnumbered, hhoming⟩ := hs
  have hchanges := changes_of_perform h
  obtain ⟨hbefore, heffect, hfrom⟩ := effect_of_perform hpaced h
  refine ⟨hchanges.rules_eq, wellPaced_of_effect (hbefore ▸ hpaced) heffect hfrom, ?_, ?_⟩
  · rw [hchanges.rules_eq]
    exact (hnumbered.changes hchanges).1
  · rcases perform_eq_ok h with ⟨pos, reply, hclick, rfl⟩ | ⟨stepped, after, hstep, hafter, rfl⟩
    · exact homing_of_clicked hexact hnumbered.nodup hhoming (clickCell_eq_ok hclick)
    · have htick : stepped.timeline.tick = s.timeline.tick := (pendingFrom_of_step hstep).1
      rcases hafter with rfl | hadvance
      · show after.Homing after.timeline.tick []
        exact homing_of_step (by omega) (by omega) hpaced hnumbered hhoming hstep
      · obtain rfl := advance_eq_ok hadvance
        have hnext : stepped.Homing (stepped.timeline.tick + 1) [] :=
          homing_of_step (by omega) (by omega) hpaced hnumbered hhoming hstep
        intro p tile htile hcommands hpending
        exact (hnext p tile htile hcommands hpending).congr rfl rfl rfl rfl

theorem steady_of_run {color : Pos → Color} {calls : List Call} {turns : List (Turn σ)}
    (hexact : rules.Exact) (hgrid : Grid.tabulate rules.gridSize color = .ok grid)
    (h : (start rules host grid generator).run calls = .ok (turns, s)) : Steady rules s :=
  runAll_induction (motive := fun _ s => Steady rules s) (steady_start hgrid)
    (fun _ _ _ _ hsteady hturn => hsteady.perform hexact hturn) h

/-- With the usual rules, on a board of five by five that was made from given or from random
colours: whenever nothing is in progress, each tile has exactly the scale at rest, or if it is the
selected one exactly the scale of a selected one, and its centre is less than a millionth away from
the centre of its cell in either direction, however many swaps and clearings there have been. -/
theorem rests_of_isIdle {calls : List Call} {turns : List (Turn σ)}
    (hgrid : (∃ color, Grid.tabulate 5 color = .ok grid) ∨
      ∃ before after, Grid.random 5 before = .ok (grid, after))
    (h : (start {} host grid generator).run calls = .ok (turns, s))
    (hidle : s.timeline.isIdle = true) (p : Pos) (hp : p.Within 5) :
    ∃ tile, s.grid.tileAt p = .ok tile ∧
      tile.scale =
        (if s.selected = some p then Rules.selectedScale {} else Rules.restScale {}) ∧
      tile.centerX.Near (Bands.center 5 p.col) (1 / 10 ^ 6) ∧
      tile.centerY.Near (Bands.center 5 p.row) (1 / 10 ^ 6) := by
  obtain ⟨color, hcolor⟩ : ∃ color, Grid.tabulate 5 color = .ok grid := by
    rcases hgrid with hgrid | ⟨before, after, hrandom⟩
    · exact hgrid
    · exact Grid.random_eq_ok hrandom
  obtain ⟨hrules, -, hnumbered, hhoming⟩ := steady_of_run Rules.exact_default hcolor h
  have hsize : s.grid.size = 5 := by rw [hnumbered.size_eq, hrules]
  obtain ⟨tile, htile⟩ : ∃ tile, s.grid.tileAt p = .ok tile :=
    Grid.tileAt_eq_ok_of_within (hsize.symm ▸ hp)
  obtain ⟨hscale, hx, hy⟩ := hhoming.rests hidle htile
  rw [hrules, hsize] at hx hy
  refine ⟨tile, htile, ?_, near_center_of_reached hx, near_center_of_reached hy⟩
  rw [hscale, scaleAt, hrules]

/-- A board of two colours in turn, on which no line is uniform, nor after a swap in its corner. -/
def checkeredGrid : Grid where
  size := 5
  tiles := Grid.tabulateTiles 5 fun p => if (p.col + p.row) % 2 = 0 then .red else .blue
  nextId := 25
  tiles_size := Array.size_ofFn

/-- Calls that swap two orbs in the corner and let the swap run to its end. -/
def cornerCalls : List Call :=
  .clickCell ⟨0, 0⟩ :: List.replicate 17 .update
    ++ .clickCell ⟨1, 0⟩ :: List.replicate 47 .update

/-- An orb that has come from the next cell by a swap, when the board is at rest again. -/
theorem rests_of_isIdle_cornerCalls :
    (∃ color, Grid.tabulate 5 color = .ok checkeredGrid) ∧
      ∃ turns s, (start {} .inMemory checkeredGrid ⟨0⟩).run cornerCalls = .ok (turns, s) ∧
        s.timeline.isIdle = true ∧
        ∃ tile, s.grid.tileAt ⟨0, 0⟩ = .ok tile ∧ tile.id = 5 ∧ tile.scale = Rules.restScale {} ∧
          tile.centerX.Near (Bands.center 5 0) (1 / 10 ^ 6) := by
  have hgrid : ∃ color, Grid.tabulate 5 color = .ok checkeredGrid := ⟨_, rfl⟩
  obtain ⟨⟨turns, s⟩, hrun, hend⟩ := exists_of_any_toOption
    (x := (start {} .inMemory checkeredGrid ⟨0⟩).run cornerCalls)
    (fun r => r.2.timeline.isIdle && decide (r.2.selected = none) &&
      (r.2.grid.tileAt ⟨0, 0⟩).toOption.any fun tile : Tile => decide (tile.id = 5))
    (by decide +kernel)
  simp only [Bool.and_eq_true, decide_eq_true_eq] at hend
  obtain ⟨⟨hidle, hfree⟩, hmoved⟩ := hend
  obtain ⟨tile, htile, hscale, hx, -⟩ := rests_of_isIdle (.inl hgrid) hrun hidle ⟨0, 0⟩ (by decide)
  rw [htile] at hmoved
  rw [hfree, if_neg (by simp)] at hscale
  exact ⟨hgrid, turns, s, hrun, hidle, tile, htile, of_decide_eq_true hmoved, hscale, hx⟩

end OrbPuzzle.Session
