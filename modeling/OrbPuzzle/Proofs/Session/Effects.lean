import OrbPuzzle.Proofs.Clearing
import OrbPuzzle.Proofs.Session.Run

/-!
# What the operations of a game do

One lemma for each operation says everything that later modules need to know of it: which parts of
the game it changes, what it leaves pending, and when it can answer with an error. Nothing after
this module looks inside an operation again.

* `clickCell_eq_ok`: the five things a click can do, as the cases of `Clicked`.
* `check_eq_ok`, `place_eq_ok`, `addScore_eq`: the operations behind the commands.
* `executeAll_refills`: a whole list of refills.
-/

namespace OrbPuzzle.Session

variable {σ : Type}

/-! ## Clicks -/

/-- The course of a tile that changes its scale over one phase. -/
def resizeCourse (rules : Rules) (start : Nat) (tile : TileId) (source target : Single) :
    Course where
  start := start
  stop := start + rules.phaseTicks
  motion := { tile, field := .scale, source, target, easing := .windupOvershoot }

/-- The course of a tile that takes one coordinate to that of another tile over one phase. -/
def moveCourse (rules : Rules) (start : Nat) (mover target : Tile) (field : Field) : Course where
  start := start
  stop := start + rules.phaseTicks
  motion := {
    tile := mover.id, field, source := mover.get field, target := target.get field
    easing := .easeBoth }

/-- The courses of a swap that starts at a given tick, over its three phases. -/
def swapCourses (rules : Rules) (tick : Nat) (first second : Tile) : List Course :=
  let shrunk := tick + rules.phaseTicks
  let moved := shrunk + rules.phaseTicks
  let (rest, small) := (rules.restScale, rules.selectedScale)
  [ resizeCourse rules tick second.id rest small,
    moveCourse rules shrunk second first .centerX,
    moveCourse rules shrunk second first .centerY,
    moveCourse rules shrunk first second .centerX,
    moveCourse rules shrunk first second .centerY,
    resizeCourse rules moved second.id small rest,
    resizeCourse rules moved first.id small rest]

theorem moves_resizeCourse {rules : Rules} {start : Nat} {id other : TileId}
    {source target : Single} {field : Field} :
    (resizeCourse rules start id source target).Moves other field ↔ id = other ∧ .scale = field :=
  Iff.rfl

theorem moves_moveCourse {rules : Rules} {start : Nat} {mover target : Tile} {id : TileId}
    {field other : Field} :
    (moveCourse rules start mover target field).Moves id other ↔ mover.id = id ∧ field = other :=
  Iff.rfl

theorem stop_resizeCourse {rules : Rules} {start : Nat} {id : TileId} {source target : Single} :
    (resizeCourse rules start id source target).stop = start + rules.phaseTicks := rfl

theorem stop_moveCourse {rules : Rules} {start : Nat} {mover target : Tile} {field : Field} :
    (moveCourse rules start mover target field).stop = start + rules.phaseTicks := rfl

/-- What a click on a cell does to a game, and what it answers. -/
inductive Clicked (s : Session σ) (pos : Pos) : Reply (Session σ) ClickOutcome → Prop where
  | ignored (busy : s.timeline.isIdle = false) : Clicked s pos ⟨s, .ok .ignored⟩
  | missed (idle : s.timeline.isIdle = true) (error : OutOfBounds)
      (outside : ¬ pos.Within s.grid.size ∨
        ∃ chosen, s.selected = some chosen ∧ ¬ chosen.Within s.grid.size) :
      Clicked s pos ⟨s, .error error⟩
  | selected (idle : s.timeline.isIdle = true) (free : s.selected = none)
      (within : pos.Within s.grid.size) {resized : Transition Command}
      (silent : resized.onDone = none) {tile : Tile} (tileAt : s.grid.tileAt pos = .ok tile)
      (course : resized.course? = some (resizeCourse s.rules s.timeline.tick tile.id
        s.rules.restScale s.rules.selectedScale)) :
      Clicked s pos
        ⟨{ s with timeline := s.timeline.push resized, selected := some pos }, .ok (.selected pos)⟩
  | cancelled (idle : s.timeline.isIdle = true) (held : s.selected = some pos)
      {resized : Transition Command} (silent : resized.onDone = none) {tile : Tile}
      (tileAt : s.grid.tileAt pos = .ok tile)
      (course : resized.course? = some (resizeCourse s.rules s.timeline.tick tile.id
        s.rules.selectedScale s.rules.restScale)) :
      Clicked s pos
        ⟨{ s with timeline := s.timeline.push resized, selected := none }, .ok (.cancelled pos)⟩
  | swapped (idle : s.timeline.isIdle = true) {chosen : Pos} (held : s.selected = some chosen)
      {added : List (Transition Command)} {grid : Grid} (swap : s.grid.swap chosen pos = .ok grid)
      (pending : added.filterMap Transition.awaited =
        [(s.timeline.tick + 3 * s.rules.phaseTicks, .check)]) {first second : Tile}
      (different : chosen ≠ pos) (tileAtChosen : s.grid.tileAt chosen = .ok first)
      (tileAt : s.grid.tileAt pos = .ok second)
      (courses : added.filterMap Transition.course? =
        swapCourses s.rules s.timeline.tick first second)
      (stop_le : ∀ u ∈ added, u.stop ≤ s.timeline.tick + 3 * s.rules.phaseTicks) :
      Clicked s pos
        ⟨{ s with timeline := s.timeline.append added, grid, selected := none },
          .ok (.swapped chosen pos)⟩

/-- Changing the scale of an orb adds one transition, which moves the orb and holds no command. -/
theorem resize_eq_ok {s : Session σ} {pos : Pos} {source target : Single}
    {reply : Reply (Session σ) Unit} (h : s.resize pos source target = .ok reply) :
    (¬ pos.Within s.grid.size ∧ ∃ e, reply = ⟨s, .error e⟩) ∨
      ∃ tile, s.grid.tileAt pos = .ok tile ∧ ∃ resized : Transition Command,
        resized.onDone = none ∧
        resized.course? = some (resizeCourse s.rules s.timeline.tick tile.id source target) ∧
        reply = ⟨{ s with timeline := s.timeline.push resized }, .ok ()⟩ := by
  obtain ⟨stop, hstop, h⟩ := bind_eq_ok_iff.mp h
  obtain rfl := (Count.add_eq_ok_iff.mp hstop).1
  cases htile : s.grid.tileAt pos with
  | error e =>
    rw [htile] at h
    exact .inl ⟨Grid.not_within_of_tileAt_eq_error htile, e, (pure_eq_ok_iff.mp h).symm⟩
  | ok tile =>
    rw [htile] at h
    obtain ⟨resized, hresized, h⟩ := bind_eq_ok_iff.mp h
    refine .inr ⟨tile, rfl, resized, ?_, ?_, (pure_eq_ok_iff.mp h).symm⟩
    · exact (Transition.make_eq_ok hresized).2.2.2
    · exact Transition.course?_of_make hresized

/-- Of the transitions of a swap, the last one holds a command: a check, three phases later. Their
courses are those of the three phases, and none of them lasts longer. -/
theorem swapTransitions_eq_ok {rules : Rules} {tick : Nat} {first second : Tile}
    {added : List (Transition Command)}
    (h : swapTransitions rules tick first second = .ok added) :
    added.filterMap Transition.awaited = [(tick + 3 * rules.phaseTicks, .check)] ∧
      added.filterMap Transition.course? = swapCourses rules tick first second ∧
      ∀ u ∈ added, u.stop ≤ tick + 3 * rules.phaseTicks := by
  obtain ⟨shrunk, hshrunk, h⟩ := bind_eq_ok_iff.mp h
  obtain ⟨moved, hmoved, h⟩ := bind_eq_ok_iff.mp h
  obtain ⟨grown, hgrown, h⟩ := bind_eq_ok_iff.mp h
  obtain rfl := (Count.add_eq_ok_iff.mp hshrunk).1
  obtain rfl := (Count.add_eq_ok_iff.mp hmoved).1
  obtain rfl := (Count.add_eq_ok_iff.mp hgrown).1
  obtain ⟨_, h₁, h⟩ := bind_eq_ok_iff.mp h
  obtain ⟨_, h₂, h⟩ := bind_eq_ok_iff.mp h
  obtain ⟨_, h₃, h⟩ := bind_eq_ok_iff.mp h
  obtain ⟨_, h₄, h⟩ := bind_eq_ok_iff.mp h
  obtain ⟨_, h₅, h⟩ := bind_eq_ok_iff.mp h
  obtain ⟨_, h₆, h⟩ := bind_eq_ok_iff.mp h
  obtain ⟨last, h₇, h⟩ := bind_eq_ok_iff.mp h
  obtain rfl := pure_eq_ok_iff.mp h
  refine ⟨?_, ?_, ?_⟩
  · have hstop : last.stop = tick + 3 * rules.phaseTicks := by
      rw [(Transition.make_eq_ok h₇).2.1]
      omega
    simp [Transition.awaited, (Transition.make_eq_ok h₁).2.2.2, (Transition.make_eq_ok h₂).2.2.2,
      (Transition.make_eq_ok h₃).2.2.2, (Transition.make_eq_ok h₄).2.2.2,
      (Transition.make_eq_ok h₅).2.2.2, (Transition.make_eq_ok h₆).2.2.2,
      (Transition.make_eq_ok h₇).2.2.2, hstop]
  · simp [Transition.course?_of_make h₁, Transition.course?_of_make h₂,
      Transition.course?_of_make h₃, Transition.course?_of_make h₄, Transition.course?_of_make h₅,
      Transition.course?_of_make h₆, Transition.course?_of_make h₇, swapCourses, resizeCourse,
      moveCourse]
  · simp only [List.forall_mem_cons, List.not_mem_nil, false_implies, implies_true, and_true,
      (Transition.make_eq_ok h₁).2.1, (Transition.make_eq_ok h₂).2.1,
      (Transition.make_eq_ok h₃).2.1, (Transition.make_eq_ok h₄).2.1,
      (Transition.make_eq_ok h₅).2.1, (Transition.make_eq_ok h₆).2.1,
      (Transition.make_eq_ok h₇).2.1]
    omega

/-- A swap of two cells of the board exchanges their tiles at once and leaves a check pending. -/
theorem swap_eq_ok {s : Session σ} {first second : Pos} {reply : Reply (Session σ) Unit}
    (h : s.swap first second = .ok reply) :
    ((¬ first.Within s.grid.size ∨ ¬ second.Within s.grid.size) ∧ ∃ e, reply = ⟨s, .error e⟩) ∨
      ∃ firstTile secondTile added grid, s.grid.tileAt first = .ok firstTile ∧
        s.grid.tileAt second = .ok secondTile ∧ s.grid.swap first second = .ok grid ∧
        added.filterMap Transition.awaited =
          [(s.timeline.tick + 3 * s.rules.phaseTicks, .check)] ∧
        added.filterMap Transition.course? =
          swapCourses s.rules s.timeline.tick firstTile secondTile ∧
        (∀ u ∈ added, u.stop ≤ s.timeline.tick + 3 * s.rules.phaseTicks) ∧
        reply = ⟨{ s with timeline := s.timeline.append added, grid }, .ok ()⟩ := by
  unfold swap at h
  cases hfirst : s.grid.tileAt first with
  | error e =>
    simp only [hfirst] at h
    cases h
    exact .inl ⟨.inl (Grid.not_within_of_tileAt_eq_error hfirst), e, rfl⟩
  | ok firstTile =>
    cases hsecond : s.grid.tileAt second with
    | error e =>
      simp only [hfirst, hsecond] at h
      cases h
      exact .inl ⟨.inr (Grid.not_within_of_tileAt_eq_error hsecond), e, rfl⟩
    | ok secondTile =>
      simp only [hfirst, hsecond] at h
      obtain ⟨added, hadded, h⟩ := bind_eq_ok_iff.mp h
      -- both cells were found, so the exchange of the tiles cannot fail
      obtain ⟨i, hi⟩ := Grid.slot_eq_ok_of_within (Grid.within_of_tileAt_eq_ok hfirst)
      obtain ⟨j, hj⟩ := Grid.slot_eq_ok_of_within (Grid.within_of_tileAt_eq_ok hsecond)
      obtain ⟨grid, hgrid⟩ : ∃ grid, s.grid.swap first second = .ok grid := by
        rw [Grid.swap, hi]
        exact ⟨_, bind_eq_ok_iff.mpr ⟨i, rfl, bind_eq_ok_iff.mpr ⟨j, hj, rfl⟩⟩⟩
      rw [hgrid] at h
      obtain ⟨hpending, hcourses, hstop⟩ := swapTransitions_eq_ok hadded
      exact .inr ⟨firstTile, secondTile, added, grid, rfl, rfl, hgrid, hpending, hcourses, hstop,
        (pure_eq_ok_iff.mp h).symm⟩

/-- A click that does not fault does one of five things. -/
theorem clickCell_eq_ok {s : Session σ} {pos : Pos} {reply : Reply (Session σ) ClickOutcome}
    (h : s.clickCell pos = .ok reply) : Clicked s pos reply := by
  unfold clickCell at h
  by_cases hidle : s.timeline.isIdle = true
  · simp only [hidle, Bool.not_true, Bool.false_eq_true, if_false] at h
    cases hselected : s.selected with
    | none =>
      simp only [hselected] at h
      obtain ⟨_, hresize, h⟩ := bind_eq_ok_iff.mp h
      obtain ⟨hoff, e, rfl⟩ | ⟨tile, htile, resized, hsilent, hcourse, rfl⟩ := resize_eq_ok hresize
      · obtain rfl := pure_eq_ok_iff.mp h
        exact .missed hidle e (.inl hoff)
      · obtain rfl := pure_eq_ok_iff.mp h
        exact .selected hidle hselected (Grid.within_of_tileAt_eq_ok htile) hsilent htile hcourse
    | some chosen =>
      simp only [hselected] at h
      by_cases hsame : chosen = pos
      · subst hsame
        rw [if_pos rfl] at h
        obtain ⟨_, hresize, h⟩ := bind_eq_ok_iff.mp h
        obtain ⟨hoff, e, rfl⟩ | ⟨tile, htile, resized, hsilent, hcourse, rfl⟩ :=
          resize_eq_ok hresize
        · obtain rfl := pure_eq_ok_iff.mp h
          exact .missed hidle e (.inl hoff)
        · obtain rfl := pure_eq_ok_iff.mp h
          exact .cancelled hidle hselected hsilent htile hcourse
      · rw [if_neg hsame] at h
        obtain ⟨_, hswap, h⟩ := bind_eq_ok_iff.mp h
        obtain ⟨hoff, e, rfl⟩ |
          ⟨first, second, added, grid, hfirst, hsecond, hgrid, hpending, hcourses, hstop, rfl⟩ :=
          swap_eq_ok hswap
        · obtain rfl := pure_eq_ok_iff.mp h
          refine .missed hidle e ?_
          rcases hoff with hchosen | hpos
          · exact .inr ⟨chosen, hselected, hchosen⟩
          · exact .inl hpos
        · obtain rfl := pure_eq_ok_iff.mp h
          exact .swapped hidle hselected hgrid hpending hsame hfirst hsecond hcourses hstop
  · have hbusy : s.timeline.isIdle = false := by simpa using hidle
    simp only [hbusy, Bool.not_false, if_true] at h
    cases h
    exact .ignored hbusy

/-! ## Commands -/

/-- A check finds the uniform lines of the board, moves the tiles on them, and leaves the commands
of their clearing pending. It never answers with an error. -/
theorem check_eq_ok {s : Session σ} {reply : Reply (Session σ) Nat} (h : s.check = .ok reply) :
    reply.answer = .ok s.grid.uniformLines.length ∧
      (s.grid.uniformLines ≠ [] → 0 < s.rules.phaseTicks) ∧
      ∃ added, reply.state = { s with timeline := s.timeline.append added } ∧
        added.filterMap Transition.awaited =
          (Clearing.commands s.grid.size s.grid.uniformLines).map
            (s.timeline.tick + 2 * s.rules.phaseTicks, ·) ∧
        ∀ c ∈ added.filterMap Transition.course?,
          Clearing.OnLines s.grid s.grid.uniformLines c.motion.tile := by
  obtain ⟨queued, hqueued, h⟩ := bind_eq_ok_iff.mp h
  obtain rfl := pure_eq_ok_iff.mp h
  have hlines : ∀ line ∈ s.grid.uniformLines, ∀ pos ∈ line.cells s.grid.size,
      pos.Within s.grid.size := fun _ hline _ hpos => Grid.within_of_mem_uniformLines hline hpos
  obtain ⟨hanswer, hphase, added, hstate, hpending, hmoved⟩ := Clearing.queue_eq_ok hlines hqueued
  refine ⟨hanswer, hphase, added, ?_, hpending, hmoved⟩
  show ({ s with timeline := queued.state } : Session σ) = _
  rw [hstate]

/-- On a settled board a check does nothing. -/
theorem check_of_settled {s : Session σ} {reply : Reply (Session σ) Nat}
    (hsettled : s.grid.uniformLines = []) (h : s.check = .ok reply) : reply = ⟨s, .ok 0⟩ := by
  unfold check at h
  rw [hsettled] at h
  cases h
  rfl

/-- Whatever a check adds ends within two phases. -/
theorem stop_le_of_check {s : Session σ} {reply : Reply (Session σ) Nat} (h : s.check = .ok reply) :
    ∀ u ∈ reply.state.timeline.active,
      u ∈ s.timeline.active ∨ u.stop ≤ s.timeline.tick + 2 * s.rules.phaseTicks := by
  obtain ⟨queued, hqueued, h⟩ := bind_eq_ok_iff.mp h
  obtain rfl := pure_eq_ok_iff.mp h
  exact Clearing.stop_le_of_queue hqueued

/-- Placing an orb, or failing to, changes at most the board and the generator. -/
theorem state_of_place {s : Session σ} {pos : Pos} {draw : Color × Generator}
    {reply : Reply (Session σ) Unit} (h : s.place pos draw = .ok reply) :
    ∃ grid, reply.state = { s with grid, generator := draw.2 } := by
  obtain ⟨answer, -, h⟩ := bind_eq_ok_iff.mp h
  cases answer with
  | error e =>
    obtain rfl := pure_eq_ok_iff.mp h
    exact ⟨s.grid, rfl⟩
  | ok placed =>
    obtain rfl := pure_eq_ok_iff.mp h
    exact ⟨placed.2, rfl⟩

/-- Placing an orb on a cell of the board spends one id. -/
theorem place_eq_ok {s : Session σ} {pos : Pos} {draw : Color × Generator}
    {reply : Reply (Session σ) Unit} (hpos : pos.Within s.grid.size)
    (h : s.place pos draw = .ok reply) :
    reply.answer = .ok () ∧
      ∃ grid generator, reply.state = { s with grid, generator } ∧ generator = draw.2 ∧
        grid.size = s.grid.size ∧ grid.nextId = s.grid.nextId + 1 := by
  obtain ⟨answer, hanswer, h⟩ := bind_eq_ok_iff.mp h
  obtain ⟨grid, rfl, hsize, hnextId⟩ := Grid.respawn_eq_ok hpos hanswer
  obtain rfl := pure_eq_ok_iff.mp h
  exact ⟨rfl, grid, draw.2, rfl, rfl, hsize, hnextId⟩

/-- Scoring lines adds them to the score, up to the largest score. Besides it changes at most the
high score and the host that remembers it. -/
theorem addScore_eq [Store σ] (s : Session σ) (lines : Nat) :
    ∃ highScore host, s.addScore lines =
      { s with score := min (s.score + lines) Score.limit, highScore, host } := by
  unfold addScore
  dsimp only
  split
  · exact ⟨_, _, rfl⟩
  · exact ⟨s.highScore, s.host, rfl⟩

/-! ## Lists of commands -/

theorem executeAll_cons [Store σ] (s : Session σ) (command : Command) (rest : List Command) :
    s.executeAll (command :: rest) =
      (do let reply ← s.execute command; reply.state.executeAll rest) := by
  unfold executeAll
  rw [List.foldlM_cons, bind_assoc]
  rfl

theorem executeAll_append [Store σ] (s : Session σ) (first second : List Command) :
    s.executeAll (first ++ second) = (do (← s.executeAll first).executeAll second) := by
  unfold executeAll
  rw [List.foldlM_append]

theorem executeAll_append_eq_ok [Store σ] {s t : Session σ} {first second : List Command}
    (h : s.executeAll (first ++ second) = .ok t) :
    ∃ u, s.executeAll first = .ok u ∧ u.executeAll second = .ok t := by
  rw [executeAll_append] at h
  exact bind_eq_ok_iff.mp h

theorem executions_singleton [Store σ] (s : Session σ) (command : Command) :
    s.executions [command] = [(s, command)] := by
  rw [executions]
  split <;> rfl

theorem executions_append [Store σ] {s u : Session σ} {first : List Command}
    (second : List Command) (h : s.executeAll first = .ok u) :
    s.executions (first ++ second) = s.executions first ++ u.executions second := by
  induction first generalizing s with
  | nil =>
    cases h
    rfl
  | cons command rest ih =>
    rw [executeAll_cons] at h
    obtain ⟨reply, hreply, h⟩ := bind_eq_ok_iff.mp h
    rw [List.cons_append, executions, executions, hreply]
    simp only [List.cons_append, ih h]

/-- One draw more comes before the others. -/
theorem generator_randomList_succ (n : Nat) (g : Generator) :
    (Color.randomList (n + 1) g).2 = (Color.randomList n (Color.random g).2).2 := by
  rw [Color.randomList]

/-- The generator after a first draw of colours and then a second one. -/
theorem generator_randomList_add (m n : Nat) (g : Generator) :
    (Color.randomList (m + n) g).2 = (Color.randomList n (Color.randomList m g).2).2 := by
  induction m generalizing g with
  | zero => rw [Nat.zero_add, Color.randomList]
  | succ m ih => rw [Nat.succ_add, generator_randomList_succ, generator_randomList_succ, ih]

/-- A list of refills draws a colour and spends an id for each of them, and touches nothing else. -/
theorem executeAll_refills [Store σ] {s t : Session σ} {cells : List Pos}
    (hcells : ∀ pos ∈ cells, pos.Within s.grid.size)
    (h : s.executeAll (cells.map .refill) = .ok t) :
    ∃ grid generator, t = { s with grid, generator } ∧
      generator = (Color.randomList cells.length s.generator).2 ∧
      grid.size = s.grid.size ∧ grid.nextId = s.grid.nextId + cells.length := by
  -- the generator stays a variable with an equation: no comparison of terms may compute a draw
  induction cells generalizing s with
  | nil =>
    cases h
    exact ⟨t.grid, t.generator, rfl, rfl, rfl, rfl⟩
  | cons pos rest ih =>
    rw [List.map_cons, executeAll_cons] at h
    obtain ⟨reply, hreply, h⟩ := bind_eq_ok_iff.mp h
    obtain ⟨-, refilled, drawn, hstate, hdrawn, hsize, hnextId⟩ :=
      place_eq_ok (hcells pos List.mem_cons_self) hreply
    rw [hstate] at h
    have hrest : ∀ pos ∈ rest, pos.Within refilled.size := by
      intro pos hpos
      rw [hsize]
      exact hcells pos (List.mem_cons_of_mem _ hpos)
    obtain ⟨grid, generator, rfl, hgenerator, hsize', hnextId'⟩ := ih hrest h
    refine ⟨grid, generator, rfl, ?_, hsize'.trans hsize, ?_⟩
    · rw [hgenerator, List.length_cons, generator_randomList_succ, ← hdrawn]
    · rw [hnextId', List.length_cons]
      show refilled.nextId + rest.length = s.grid.nextId + (rest.length + 1)
      rw [hnextId, Nat.add_right_comm, Nat.add_assoc]

/-- A single command is carried out. -/
theorem executeAll_singleton_eq_ok [Store σ] {s t : Session σ} {command : Command}
    (h : s.executeAll [command] = .ok t) :
    ∃ reply, s.execute command = .ok reply ∧ reply.state = t := by
  rw [executeAll_cons] at h
  obtain ⟨reply, hreply, h⟩ := bind_eq_ok_iff.mp h
  exact ⟨reply, hreply, pure_eq_ok_iff.mp h⟩

theorem execute_check_eq_ok [Store σ] {s : Session σ} {reply : Reply (Session σ) Unit}
    (h : s.execute .check = .ok reply) :
    ∃ found, s.check = .ok found ∧ reply = found.mapAnswer fun _ => () := by
  obtain ⟨found, hfound, h⟩ := bind_eq_ok_iff.mp h
  exact ⟨found, hfound, (pure_eq_ok_iff.mp h).symm⟩

theorem execute_tally_eq_ok [Store σ] {s : Session σ} {lines : Nat}
    {reply : Reply (Session σ) Unit} (h : s.execute (.tally lines) = .ok reply) :
    ∃ found, (s.addScore lines).check = .ok found ∧ reply = found.mapAnswer fun _ => () := by
  obtain ⟨found, hfound, h⟩ := bind_eq_ok_iff.mp h
  exact ⟨found, hfound, (pure_eq_ok_iff.mp h).symm⟩

/-- A command that names no cell outside the board is carried out without an error, and the board
keeps its size. -/
theorem execute_eq_ok [Store σ] {s : Session σ} {command : Command}
    {reply : Reply (Session σ) Unit}
    (hwithin : ∀ pos, command = .refill pos → pos.Within s.grid.size)
    (h : s.execute command = .ok reply) :
    reply.answer = .ok () ∧ reply.state.grid.size = s.grid.size := by
  cases command with
  | check =>
    obtain ⟨found, hfound, rfl⟩ := execute_check_eq_ok h
    obtain ⟨hanswer, -, added, hstate, -, -⟩ := check_eq_ok hfound
    simp [Reply.mapAnswer, hanswer, hstate, Except.map]
  | refill pos =>
    obtain ⟨hanswer, grid, generator, hstate, -, hsize, -⟩ := place_eq_ok (hwithin pos rfl) h
    rw [hstate]
    exact ⟨hanswer, hsize⟩
  | tally lines =>
    obtain ⟨found, hfound, rfl⟩ := execute_tally_eq_ok h
    obtain ⟨hanswer, -, added, hstate, -, -⟩ := check_eq_ok hfound
    obtain ⟨highScore, host, hscored⟩ := s.addScore_eq lines
    simp [Reply.mapAnswer, hanswer, hstate, hscored, Except.map]

/-- Commands that name no cell outside the board are all carried out without an error. -/
theorem answer_of_mem_executions [Store σ] {s : Session σ} {commands : List Command}
    (hwithin : ∀ pos, .refill pos ∈ commands → pos.Within s.grid.size) :
    ∀ execution ∈ s.executions commands, ∀ reply,
      execution.1.execute execution.2 = .ok reply → reply.answer = .ok () := by
  induction commands generalizing s with
  | nil =>
    intro execution hexecution
    cases hexecution
  | cons command rest ih =>
    intro execution hexecution reply hreply
    have hcommand : ∀ pos, command = .refill pos → pos.Within s.grid.size := by
      rintro pos rfl
      exact hwithin pos List.mem_cons_self
    rw [executions] at hexecution
    rcases List.mem_cons.mp hexecution with rfl | hlater
    · exact (execute_eq_ok hcommand hreply).1
    · cases hfirst : s.execute command with
      | error fault =>
        rw [hfirst] at hlater
        cases hlater
      | ok first =>
        rw [hfirst] at hlater
        refine ih ?_ execution hlater reply hreply
        intro pos hpos
        rw [(execute_eq_ok hcommand hfirst).2]
        exact hwithin pos (List.mem_cons_of_mem _ hpos)

/-- If a list of commands does not fault, none of them does. -/
theorem execute_of_mem_executions [Store σ] {s t : Session σ} {commands : List Command}
    (h : s.executeAll commands = .ok t) :
    ∀ execution ∈ s.executions commands, ∃ reply, execution.1.execute execution.2 = .ok reply := by
  induction commands generalizing s with
  | nil =>
    intro execution hexecution
    cases hexecution
  | cons command rest ih =>
    intro execution hexecution
    rw [executeAll_cons] at h
    obtain ⟨reply, hreply, h⟩ := bind_eq_ok_iff.mp h
    rw [executions, hreply] at hexecution
    rcases List.mem_cons.mp hexecution with rfl | hlater
    · exact ⟨reply, hreply⟩
    · exact ih h execution hlater

theorem mem_of_mem_executions [Store σ] {s : Session σ} {commands : List Command}
    {execution : Session σ × Command} (h : execution ∈ s.executions commands) :
    execution.2 ∈ commands := by
  induction commands generalizing s with
  | nil => cases h
  | cons command rest ih =>
    rw [executions] at h
    rcases List.mem_cons.mp h with rfl | hlater
    · exact List.mem_cons_self
    · split at hlater
      · cases hlater
      · exact List.mem_cons_of_mem _ (ih hlater)

/-- Advancing moves the clock on by one tick. -/
theorem advance_eq_ok {s t : Session σ} (h : s.advance = .ok t) :
    t = { s with timeline := { s.timeline with tick := s.timeline.tick + 1 } } := by
  obtain ⟨timeline, htimeline, h⟩ := bind_eq_ok_iff.mp h
  obtain ⟨tick, htick, htimeline⟩ := bind_eq_ok_iff.mp htimeline
  obtain rfl := pure_eq_ok_iff.mp htimeline
  obtain rfl := pure_eq_ok_iff.mp h
  rw [(Count.add_eq_ok_iff.mp htick).1]

end OrbPuzzle.Session
