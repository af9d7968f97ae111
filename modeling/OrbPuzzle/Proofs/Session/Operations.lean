import OrbPuzzle.Proofs.Session.Effects

/-!
# Every operation, change by change

A game can also be asked directly for what calls lead to: a swap, a check, or any command at all, in
any order and out of turn. The pending commands then need not belong to one pass, and little that
holds of calls alone is left. What is left follows from the single changes of which all operations
are made up.

* `Operation`, `operate`: calls and direct requests, each recorded as an act with the events it
  brought about.
* `Change`: the things that can happen at once, with their events; `Changes` chains them.
* `changes_of_runOperations`: every run of operations is such a chain, and so is each act of it.
-/

namespace OrbPuzzle.Session

variable {σ : Type}

/-! ## Operations and their events -/

/-- An operation on a game: a call, or a direct request. -/
inductive Operation : Type 1 where
  | call (call : Call)
  | swap (first second : Pos)
  | check
  | execute (command : Command)

/-- What can happen to the tiles of a board, besides changing places. -/
inductive Event where
  /-- A course is added to those in progress. -/
  | push (course : Course)
  /-- A course writes to its tile. -/
  | write (course : Course)
  /-- A new tile is put on the board. -/
  | create (tile : Tile)
deriving DecidableEq

/-- The courses that write when the current tick is played. -/
def writeEvents (s : Session σ) : List Event :=
  (s.timeline.courses.filter (·.IsActiveAt s.timeline.tick)).map .write

/-- The courses that have been added since an earlier state of a game, in which no tick was played.
-/
def pushEvents (before after : Session σ) : List Event :=
  (after.timeline.courses.drop before.timeline.courses.length).map .push

/-- What carrying out a command brought about. A refill that spends an id has put a tile on its
cell; the other commands only add courses. -/
def commandEvents (before : Session σ) (command : Command) (after : Session σ) : List Event :=
  match command with
  | .refill pos =>
    if before.grid.nextId < after.grid.nextId then
      (after.grid.tileAt pos).toOption.toList.map .create
    else []
  | _ => pushEvents before after

/-- What carrying out a command on a game brings about. -/
def executionEvents [Store σ] (execution : Session σ × Command) : List Event :=
  match execution.1.execute execution.2 with
  | .error _ => []
  | .ok reply => commandEvents execution.1 execution.2 reply.state

/-- What a turn brought about. Only clicks answer anything; every other turn plays the current tick
and carries out commands. -/
def Turn.events [Store σ] (turn : Turn σ) : List Event :=
  match turn.reply.answer with
  | .ok none => turn.before.writeEvents ++ turn.executed.flatMap executionEvents
  | _ => pushEvents turn.before turn.after

/-- One operation of a run: the game before it, what it brought about, and the game after it. -/
structure Act (σ : Type) where
  before : Session σ
  events : List Event
  after : Session σ

/-- Carries out an operation on a game. -/
def operate [Store σ] (s : Session σ) : Operation → Except Fault (Act σ)
  | .call call => do
    let turn ← s.perform call
    return ⟨s, turn.events, turn.after⟩
  | .swap first second => do
    let reply ← s.swap first second
    return ⟨s, pushEvents s reply.state, reply.state⟩
  | .check => do
    let reply ← s.check
    return ⟨s, pushEvents s reply.state, reply.state⟩
  | .execute command => do
    let reply ← s.execute command
    return ⟨s, commandEvents s command reply.state, reply.state⟩

/-- Carries out operations one after the other. Gives the acts, and the game after the last of them.
-/
def runOperations [Store σ] (s : Session σ) (operations : List Operation) :
    Except Fault (List (Act σ) × Session σ) :=
  runAll operate Act.after s operations

/-! ## Changes -/

/-- One of the things that can happen to a game at once, and the events it brings about. -/
inductive Change [Store σ] (s : Session σ) : List Event → Session σ → Prop where
  /-- The current tick is played. -/
  | play : Change s s.writeEvents s.animated
  /-- Transitions are added, all of them for tiles on the board. -/
  | append {added : List (Transition Command)}
      (present : ∀ c ∈ added.filterMap Transition.course?, c.motion.tile ∈ s.grid.ids) :
      Change s ((added.filterMap Transition.course?).map .push)
        { s with timeline := s.timeline.append added }
  /-- Two tiles change places. -/
  | exchange {a b : Pos} {grid : Grid} (swap : s.grid.swap a b = .ok grid) :
      Change s [] { s with grid }
  /-- A tile is replaced by a new one. -/
  | respawn {pos : Pos} {color : Color} {grid : Grid} {tile : Tile}
      (respawn : s.grid.respawn pos color = .ok (.ok (s.grid.nextId, grid)))
      (tileAt : grid.tileAt pos = .ok tile) : Change s [.create tile] { s with grid }
  /-- Lines are added to the score. -/
  | score (lines : Nat) : Change s [] (s.addScore lines)
  /-- The clock, the selection or the generator moves on. -/
  | pass (tick : Nat) (selected : Option Pos) (generator : Generator) :
      Change s [] { s with timeline := { s.timeline with tick }, selected, generator }

/-- Changes one after the other. -/
inductive Changes [Store σ] (s : Session σ) : List Event → Session σ → Prop where
  | refl : Changes s [] s
  | tail {events more : List Event} {t u : Session σ} (first : Changes s events t)
      (last : Change t more u) : Changes s (events ++ more) u

theorem Change.changes [Store σ] {s t : Session σ} {events : List Event}
    (h : Change s events t) : Changes s events t :=
  Changes.tail .refl h

theorem Changes.trans [Store σ] {s t u : Session σ} {events more : List Event}
    (first : Changes s events t) (second : Changes t more u) : Changes s (events ++ more) u := by
  induction second with
  | refl =>
    rw [List.append_nil]
    exact first
  | tail _ last ih =>
    rw [← List.append_assoc]
    exact ih.tail last

/-- No change touches the rules. -/
theorem Changes.rules_eq [Store σ] {s t : Session σ} {events : List Event}
    (h : Changes s events t) : t.rules = s.rules := by
  induction h with
  | refl => rfl
  | @tail _ _ t u _ last ih =>
    rw [← ih]
    cases last with
    | score lines =>
      obtain ⟨highScore, host, hscored⟩ := t.addScore_eq lines
      rw [hscored]
    | play => rfl
    | append present => rfl
    | exchange swap => rfl
    | respawn respawn tileAt => rfl
    | pass tick selected generator => rfl

/-! ## Clicks and checks -/

theorem pushEvents_self (s : Session σ) : pushEvents s s = [] := by
  rw [pushEvents, List.drop_length, List.map_nil]

/-- The events of transitions that were added are their courses. -/
theorem pushEvents_append (s : Session σ) {t : Session σ} (added : List (Transition Command))
    (h : t.timeline = s.timeline.append added) :
    pushEvents s t = (added.filterMap Transition.course?).map .push := by
  rw [pushEvents, h, Timeline.courses_append, List.drop_left]

/-- The courses of a swap are those of its two tiles. -/
theorem tile_of_mem_swapCourses {rules : Rules} {tick : Nat} {first second : Tile} {c : Course}
    (h : c ∈ swapCourses rules tick first second) :
    c.motion.tile = first.id ∨ c.motion.tile = second.id := by
  simp only [swapCourses, resizeCourse, moveCourse, List.mem_cons, List.not_mem_nil, or_false] at h
  rcases h with rfl | rfl | rfl | rfl | rfl | rfl | rfl <;> simp

/-- Adding the transitions of a swap and exchanging the tiles. -/
theorem changes_of_swapped [Store σ] {s : Session σ} {a b : Pos} {first second : Tile}
    {added : List (Transition Command)} {grid : Grid} (hfirst : s.grid.tileAt a = .ok first)
    (hsecond : s.grid.tileAt b = .ok second) (hswap : s.grid.swap a b = .ok grid)
    (hcourses : added.filterMap Transition.course? =
      swapCourses s.rules s.timeline.tick first second) :
    Changes s ((added.filterMap Transition.course?).map .push)
      { s with timeline := s.timeline.append added, grid } := by
  have hpresent : ∀ c ∈ added.filterMap Transition.course?, c.motion.tile ∈ s.grid.ids := by
    intro c hc
    rw [hcourses] at hc
    rcases tile_of_mem_swapCourses hc with hc | hc
    · rw [hc]
      exact Grid.id_mem_ids_of_tileAt hfirst
    · rw [hc]
      exact Grid.id_mem_ids_of_tileAt hsecond
  have happend := (Change.append hpresent).changes
  have hexchange := happend.tail (.exchange hswap)
  rw [List.append_nil] at hexchange
  exact hexchange

/-- Adding a transition that moves the tile on a cell. -/
theorem changes_of_resized [Store σ] {s : Session σ} {pos : Pos} {tile : Tile}
    {resized : Transition Command} {source target : Single} (htile : s.grid.tileAt pos = .ok tile)
    (hcourse : resized.course? =
      some (resizeCourse s.rules s.timeline.tick tile.id source target)) (selected : Option Pos) :
    Changes s (pushEvents s { s with timeline := s.timeline.push resized, selected })
      { s with timeline := s.timeline.push resized, selected } := by
  have hpresent : ∀ c ∈ [resized].filterMap Transition.course?, c.motion.tile ∈ s.grid.ids := by
    intro c hc
    simp only [List.filterMap_cons, hcourse, List.filterMap_nil, List.mem_singleton] at hc
    rw [hc]
    exact Grid.id_mem_ids_of_tileAt htile
  rw [pushEvents_append s [resized] rfl]
  have happend := (Change.append hpresent).changes
  have hpass := happend.tail (.pass s.timeline.tick selected s.generator)
  rw [List.append_nil] at hpass
  exact hpass

theorem changes_of_clicked [Store σ] {s : Session σ} {pos : Pos}
    {reply : Reply (Session σ) ClickOutcome} (h : Clicked s pos reply) :
    Changes s (pushEvents s reply.state) reply.state := by
  cases h with
  | ignored busy =>
    rw [pushEvents_self]
    exact .refl
  | missed idle error =>
    rw [pushEvents_self]
    exact .refl
  | selected idle free within silent tileAt course => exact changes_of_resized tileAt course _
  | cancelled idle held silent tileAt course => exact changes_of_resized tileAt course _
  | @swapped idle chosen held added grid swap pending first second different tileAtChosen tileAt
      courses =>
    rw [pushEvents_append s added rfl]
    have hswapped := changes_of_swapped tileAtChosen tileAt swap courses
    have hpass := hswapped.tail (.pass s.timeline.tick none s.generator)
    rw [List.append_nil] at hpass
    exact hpass

theorem changes_of_swap [Store σ] {s : Session σ} {first second : Pos}
    {reply : Reply (Session σ) Unit} (h : s.swap first second = .ok reply) :
    Changes s (pushEvents s reply.state) reply.state := by
  obtain ⟨-, e, rfl⟩ | ⟨_, _, added, grid, hfirst, hsecond, hgrid, -, hcourses, -, rfl⟩ :=
    swap_eq_ok h
  · rw [pushEvents_self]
    exact .refl
  · rw [pushEvents_append s added rfl]
    exact changes_of_swapped hfirst hsecond hgrid hcourses

theorem changes_of_check [Store σ] {s : Session σ} {reply : Reply (Session σ) Nat}
    (h : s.check = .ok reply) : Changes s (pushEvents s reply.state) reply.state := by
  obtain ⟨-, -, added, hstate, -, hmoved⟩ := check_eq_ok h
  have hpresent : ∀ c ∈ added.filterMap Transition.course?, c.motion.tile ∈ s.grid.ids := by
    intro c hc
    obtain ⟨_, _, _, _, tile, htile, hid⟩ := hmoved c hc
    rw [← hid]
    exact Grid.id_mem_ids_of_tileAt htile
  rw [pushEvents_append s added (by rw [hstate]), hstate]
  exact (Change.append hpresent).changes

/-! ## Commands -/

/-- Placing an orb replaces a tile, or draws a colour for nothing. -/
theorem changes_of_place [Store σ] {s : Session σ} {pos : Pos} {draw : Color × Generator}
    {reply : Reply (Session σ) Unit} (h : s.place pos draw = .ok reply) :
    Changes s (commandEvents s (.refill pos) reply.state) reply.state := by
  obtain ⟨answer, hanswer, h⟩ := bind_eq_ok_iff.mp h
  obtain ⟨-, e, rfl⟩ | ⟨i, grid, hslot, rfl, hsize, hnextId, htiles⟩ :=
    Grid.respawn_cases hanswer
  · obtain rfl := pure_eq_ok_iff.mp h
    have hnone : commandEvents s (.refill pos) { s with generator := draw.2 } = [] :=
      if_neg (Nat.lt_irrefl _)
    rw [hnone]
    exact (Change.pass s.timeline.tick s.selected draw.2).changes
  · obtain rfl := pure_eq_ok_iff.mp h
    obtain ⟨tile, htile⟩ : ∃ tile, grid.tileAt pos = .ok tile := by
      apply Grid.tileAt_eq_ok_of_within
      rw [hsize]
      exact Grid.within_of_slot_eq_ok hslot
    have hcreate : commandEvents s (.refill pos) { s with grid, generator := draw.2 } =
        [.create tile] := by
      have hlt : s.grid.nextId < grid.nextId := by
        rw [hnextId]
        exact Nat.lt_succ_self _
      simp only [commandEvents, if_pos hlt, htile]
      rfl
    rw [hcreate]
    have hrespawn := (Change.respawn hanswer htile).changes
    have hpass := hrespawn.tail (.pass s.timeline.tick s.selected draw.2)
    rw [List.append_nil] at hpass
    exact hpass

theorem changes_of_execute [Store σ] {s : Session σ} {command : Command}
    {reply : Reply (Session σ) Unit} (h : s.execute command = .ok reply) :
    Changes s (commandEvents s command reply.state) reply.state := by
  cases command with
  | check =>
    obtain ⟨found, hfound, rfl⟩ := execute_check_eq_ok h
    exact changes_of_check hfound
  | refill pos => exact changes_of_place h
  | tally lines =>
    obtain ⟨found, hfound, rfl⟩ := execute_tally_eq_ok h
    have htimeline : (s.addScore lines).timeline = s.timeline := by
      obtain ⟨highScore, host, hscored⟩ := s.addScore_eq lines
      rw [hscored]
    have hevents : pushEvents s found.state = pushEvents (s.addScore lines) found.state := by
      rw [pushEvents, pushEvents, htimeline]
    show Changes s (pushEvents s found.state) found.state
    rw [hevents]
    exact (Change.score lines).changes.trans (changes_of_check hfound)

theorem changes_of_executeAll [Store σ] {s t : Session σ} {commands : List Command}
    (h : s.executeAll commands = .ok t) :
    Changes s ((s.executions commands).flatMap executionEvents) t := by
  induction commands generalizing s with
  | nil =>
    cases h
    exact .refl
  | cons command rest ih =>
    rw [executeAll_cons] at h
    obtain ⟨reply, hreply, h⟩ := bind_eq_ok_iff.mp h
    have hfirst : executionEvents (s, command) = commandEvents s command reply.state := by
      rw [executionEvents, hreply]
    rw [executions, hreply, List.flatMap_cons, hfirst]
    exact (changes_of_execute hreply).trans (ih h)

/-! ## Operations -/

theorem changes_of_step [Store σ] {s t : Session σ} (h : s.step = .ok t) :
    Changes s (s.writeEvents ++ s.stepExecutions.flatMap executionEvents) t := by
  rw [step_eq_executeAll] at h
  exact Change.play.changes.trans (changes_of_executeAll h)

theorem changes_of_perform [Store σ] {s : Session σ} {call : Call} {turn : Turn σ}
    (h : s.perform call = .ok turn) : Changes s turn.events turn.after := by
  rcases perform_eq_ok h with ⟨pos, reply, hclick, rfl⟩ | ⟨stepped, after, hstep, hafter, rfl⟩
  · have hclicked := changes_of_clicked (clickCell_eq_ok hclick)
    obtain ⟨state, answer⟩ := reply
    cases answer <;> exact hclicked
  · have hstepped := changes_of_step hstep
    rcases hafter with rfl | hadvance
    · exact hstepped
    · obtain rfl := advance_eq_ok hadvance
      have hpass := hstepped.tail
        (.pass (stepped.timeline.tick + 1) stepped.selected stepped.generator)
      rw [List.append_nil] at hpass
      exact hpass

/-- Every operation is a chain of changes, with the events that are recorded for it. -/
theorem changes_of_operate [Store σ] {s : Session σ} {operation : Operation} {act : Act σ}
    (h : s.operate operation = .ok act) : act.before = s ∧ Changes s act.events act.after := by
  cases operation with
  | call call =>
    obtain ⟨turn, hturn, h⟩ := bind_eq_ok_iff.mp h
    obtain rfl := pure_eq_ok_iff.mp h
    exact ⟨rfl, changes_of_perform hturn⟩
  | swap first second =>
    obtain ⟨reply, hreply, h⟩ := bind_eq_ok_iff.mp h
    obtain rfl := pure_eq_ok_iff.mp h
    exact ⟨rfl, changes_of_swap hreply⟩
  | check =>
    obtain ⟨reply, hreply, h⟩ := bind_eq_ok_iff.mp h
    obtain rfl := pure_eq_ok_iff.mp h
    exact ⟨rfl, changes_of_check hreply⟩
  | execute command =>
    obtain ⟨reply, hreply, h⟩ := bind_eq_ok_iff.mp h
    obtain rfl := pure_eq_ok_iff.mp h
    exact ⟨rfl, changes_of_execute hreply⟩

/-- Every run is a chain of changes. -/
theorem changes_of_runOperations [Store σ] {s t : Session σ} {operations : List Operation}
    {acts : List (Act σ)} (h : s.runOperations operations = .ok (acts, t)) :
    Changes s (acts.flatMap Act.events) t := by
  refine runAll_induction (motive := fun acts t => Changes s (acts.flatMap Act.events) t) .refl ?_ h
  intro acts t operation act hacts hact
  obtain ⟨rfl, hchanges⟩ := changes_of_operate hact
  rw [List.flatMap_append, List.flatMap_singleton]
  exact hacts.trans hchanges

/-- The first act of a run, and the run that goes on after it. -/
theorem runOperations_eq_cons [Store σ] {s t : Session σ} {operations : List Operation}
    {act : Act σ} {later : List (Act σ)}
    (h : s.runOperations operations = .ok (act :: later, t)) :
    act.before = s ∧ Changes s act.events act.after ∧
      ∃ rest, act.after.runOperations rest = .ok (later, t) := by
  cases operations with
  | nil => cases h
  | cons operation rest =>
    obtain ⟨first, hfirst, h⟩ := bind_eq_ok_iff.mp h
    obtain ⟨⟨acts, last⟩, hrest, h⟩ := bind_eq_ok_iff.mp h
    cases pure_eq_ok_iff.mp h
    obtain ⟨hbefore, hchanges⟩ := changes_of_operate hfirst
    exact ⟨hbefore, hchanges, rest, hrest⟩

/-- Around each of its acts, a run falls into three chains. -/
theorem changes_around_act [Store σ] {s t : Session σ} {operations : List Operation}
    {earlier later : List (Act σ)} {act : Act σ}
    (h : s.runOperations operations = .ok (earlier ++ act :: later, t)) :
    Changes s (earlier.flatMap Act.events) act.before ∧
      Changes act.before act.events act.after ∧
      Changes act.after (later.flatMap Act.events) t := by
  induction earlier generalizing s operations with
  | nil =>
    obtain ⟨rfl, hchanges, rest, hrest⟩ := runOperations_eq_cons h
    exact ⟨.refl, hchanges, changes_of_runOperations hrest⟩
  | cons first earlier ih =>
    obtain ⟨rfl, hchanges, rest, hrest⟩ := runOperations_eq_cons h
    obtain ⟨hbefore, hact, hafter⟩ := ih hrest
    rw [List.flatMap_cons]
    exact ⟨hchanges.trans hbefore, hact, hafter⟩

end OrbPuzzle.Session
