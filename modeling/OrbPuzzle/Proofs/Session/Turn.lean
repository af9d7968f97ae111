import Mathlib.Algebra.GroupWithZero.Nat
import OrbPuzzle.Proofs.Session.Effects

/-!
# What a turn can do

The rules of the game see the faces of the board, the score sheet (score, ids, draws), the selection
and the pending commands. This module says once what a single turn can do to these, as the cases of
`Turn.Effect`; every fact about whole runs is then an induction with one case for each of them.

## Passes

The pending commands always belong to one pass. Either nothing is pending, or the check that ends a
swap, or the refills and the tally that end a clearing of the lines which are uniform now. Since
everything of a pass is due at one tick, a step carries out all of it or nothing. A game is well paced
if it is in such a pass and holds a selection only in the first one. `effect_of_perform` needs this,
and `wellPaced_of_effect` gives it back.
-/

namespace OrbPuzzle

/-- The lines that a command adds to the score. -/
def Command.talliedLines : Command → Nat
  | .check => 0
  | .refill _ => 0
  | .tally lines => lines

namespace Session

variable {σ : Type}

/-- The lines found by the detection that carrying out a command makes. A refill makes none. -/
def detectedLines [Store σ] : Session σ × Command → Nat
  | (s, .check) => s.grid.uniformLines.length
  | (_, .refill _) => 0
  | (s, .tally lines) => (s.addScore lines).grid.uniformLines.length

/-- The detection after a tally looks at the board as it was before: scoring does not touch it. -/
theorem detectedLines_tally [Store σ] (s : Session σ) (lines : Nat) :
    detectedLines (s, .tally lines) = s.grid.uniformLines.length := by
  obtain ⟨highScore, host, hscored⟩ := s.addScore_eq lines
  rw [detectedLines, hscored]

/-- The lines found by all detections of a turn. -/
def Turn.detected [Store σ] (turn : Turn σ) : Nat := (turn.executed.map detectedLines).sum

/-- The lines that a turn adds to the score. -/
def Turn.tallied (turn : Turn σ) : Nat := (turn.executed.map (·.2.talliedLines)).sum

/-- The turn is a click that swapped two orbs. -/
def Turn.Swaps (turn : Turn σ) : Prop :=
  ∃ first second, turn.reply.answer = .ok (some (.swapped first second))

instance (turn : Turn σ) : Decidable turn.Swaps :=
  match h : turn.reply.answer with
  | .ok (some (.swapped first second)) => isTrue ⟨first, second, h⟩
  | .error _ | .ok none | .ok (some .ignored) | .ok (some (.selected _))
  | .ok (some (.cancelled _)) => isFalse fun ⟨_, _, h'⟩ => nomatch h.symm.trans h'

/-! ## Passes -/

/-- What the pending commands of a game are part of. -/
inductive Pass where
  | none
  | check
  | clearing

/-- The game is in a pass: exactly the commands of that pass are pending, all for one tick that has
not gone by. -/
def InPass (s : Session σ) : Pass → Prop
  | .none => s.timeline.pending = []
  | .check => ∃ tick, s.timeline.tick ≤ tick ∧ s.timeline.pending = [(tick, .check)]
  | .clearing =>
    1 ≤ s.grid.uniformLines.length ∧ ∃ tick, s.timeline.tick ≤ tick ∧
      s.timeline.pending =
        (Clearing.refills s.grid.size s.grid.uniformLines
          ++ [Command.tally s.grid.uniformLines.length]).map (tick, ·)

/-- The game is in some pass, and holds a selection only of a cell of the board and only while
nothing is pending. -/
structure WellPaced (s : Session σ) : Prop where
  inPass : ∃ pass, s.InPass pass
  selected_within : ∀ pos, s.selected = some pos → pos.Within s.grid.size
  selected_rests : ∀ pos, s.selected = some pos → s.timeline.pending = []

/-- In a well paced game nothing is pending for a tick that has gone by. -/
theorem WellPaced.pendingFrom {s : Session σ} (hs : s.WellPaced) :
    s.timeline.PendingFrom s.timeline.tick := by
  obtain ⟨pass, hpass⟩ := hs.inPass
  intro entry hentry
  cases pass with
  | none =>
    rw [show s.timeline.pending = [] from hpass] at hentry
    cases hentry
  | check =>
    obtain ⟨tick, hle, hpending⟩ := hpass
    rw [hpending] at hentry
    obtain rfl := List.mem_singleton.mp hentry
    exact hle
  | clearing =>
    obtain ⟨-, tick, hle, hpending⟩ := hpass
    rw [hpending] at hentry
    obtain ⟨command, -, rfl⟩ := List.mem_map.mp hentry
    exact hle

/-- While something is pending, nothing is selected. -/
theorem WellPaced.selected_ne_some {s : Session σ} (hs : s.WellPaced)
    (hpending : s.timeline.pending ≠ []) (pos : Pos) : s.selected ≠ some pos :=
  fun hpos => hpending (hs.selected_rests pos hpos)

/-- A game that is in some pass and holds no selection is well paced. -/
theorem wellPaced_of_free {s : Session σ} (hpass : ∃ pass, s.InPass pass)
    (hfree : ∀ pos, s.selected ≠ some pos) : s.WellPaced where
  inPass := hpass
  selected_within := fun pos hpos => absurd hpos (hfree pos)
  selected_rests := fun pos hpos => absurd hpos (hfree pos)

theorem inPass_check {s : Session σ} {tick : Nat}
    (hfrom : s.timeline.PendingFrom s.timeline.tick)
    (hpending : s.timeline.pending = [(tick, .check)]) : s.InPass .check := by
  refine ⟨tick, ?_, hpending⟩
  exact hfrom (tick, .check) (by rw [hpending]; exact List.mem_cons_self)

theorem inPass_clearing {s : Session σ} {tick : Nat}
    (hfrom : s.timeline.PendingFrom s.timeline.tick) (hlines : 1 ≤ s.grid.uniformLines.length)
    (hpending : s.timeline.pending =
      (Clearing.refills s.grid.size s.grid.uniformLines
        ++ [Command.tally s.grid.uniformLines.length]).map (tick, ·)) : s.InPass .clearing := by
  refine ⟨hlines, tick, ?_, hpending⟩
  exact hfrom (tick, .tally s.grid.uniformLines.length) (by rw [hpending]; simp)

/-- After a check, the game is at rest or a clearing has begun. -/
theorem inPass_of_commands {s : Session σ} {tick : Nat}
    (hfrom : s.timeline.PendingFrom s.timeline.tick)
    (hpending : s.timeline.pending =
      (Clearing.commands s.grid.size s.grid.uniformLines).map (tick, ·)) :
    ∃ pass, s.InPass pass := by
  by_cases hnone : s.grid.uniformLines = []
  · refine ⟨.none, ?_⟩
    show s.timeline.pending = []
    rw [hpending, hnone]
    rfl
  · have hlines : 1 ≤ s.grid.uniformLines.length := List.length_pos_iff.mpr hnone
    rw [Clearing.commands_of_le hlines] at hpending
    exact ⟨.clearing, inPass_clearing hfrom hlines hpending⟩

theorem wellPaced_start [Store σ] (rules : Rules) (host : Host σ) (grid : Grid)
    (generator : Generator) : (start rules host grid generator).WellPaced where
  inPass := ⟨.none, rfl⟩
  selected_within := fun _ h => nomatch h
  selected_rests := fun _ h => nomatch h

/-! ## Effects -/

/-- Neither the board's size nor anything on the score sheet has changed. -/
structure SameSheet (s t : Session σ) : Prop where
  rules_eq : t.rules = s.rules
  size_eq : t.grid.size = s.grid.size
  nextId_eq : t.grid.nextId = s.grid.nextId
  score_eq : t.score = s.score
  generator_eq : t.generator = s.generator

/-- Neither the faces of the board nor anything on the score sheet has changed. -/
structure SameGame (s t : Session σ) : Prop extends SameSheet s t where
  faces_eq : t.grid.faces = s.grid.faces

theorem SameGame.sameFaces {s t : Session σ} (same : s.SameGame t) : s.grid.SameFaces t.grid :=
  ⟨same.size_eq, same.faces_eq, same.nextId_eq⟩

theorem SameGame.refl (s : Session σ) : s.SameGame s where
  rules_eq := rfl
  size_eq := rfl
  nextId_eq := rfl
  score_eq := rfl
  generator_eq := rfl
  faces_eq := rfl

/-- What one turn does to the game. -/
inductive Turn.Effect [Store σ] (turn : Turn σ) : Prop where
  /-- Nothing that the rules see has changed. -/
  | quiet (same : turn.before.SameGame turn.after)
      (selected : turn.after.selected = turn.before.selected)
      (pending : turn.after.timeline.pending = turn.before.timeline.pending)
      (executed : turn.executed = []) (answer : ¬ turn.Swaps)
  /-- A cell has been selected. -/
  | selects {pos : Pos} (same : turn.before.SameGame turn.after)
      (held : turn.after.selected = some pos) (within : pos.Within turn.after.grid.size)
      (restsBefore : turn.before.timeline.pending = [])
      (restsAfter : turn.after.timeline.pending = [])
      (executed : turn.executed = []) (answer : turn.reply.answer = .ok (some (.selected pos)))
  /-- The selection has been given up. -/
  | cancels {pos : Pos} (same : turn.before.SameGame turn.after)
      (free : turn.after.selected = none)
      (restsBefore : turn.before.timeline.pending = [])
      (restsAfter : turn.after.timeline.pending = [])
      (executed : turn.executed = []) (answer : turn.reply.answer = .ok (some (.cancelled pos)))
  /-- Two orbs have been swapped, and a check is pending. -/
  | swaps (tick : Nat) (same : turn.before.SameSheet turn.after)
      (free : turn.after.selected = none)
      (restsBefore : turn.before.timeline.pending = [])
      (pending : turn.after.timeline.pending = [(tick, .check)])
      (executed : turn.executed = []) (answer : turn.Swaps)
  /-- The check after a swap has been made. -/
  | checks (tick next : Nat) (same : turn.before.SameGame turn.after)
      (selected : turn.after.selected = turn.before.selected)
      (pendingBefore : turn.before.timeline.pending = [(tick, .check)])
      (pendingAfter : turn.after.timeline.pending =
        (Clearing.commands turn.after.grid.size turn.after.grid.uniformLines).map (next, ·))
      (detected : turn.detected = turn.after.grid.uniformLines.length)
      (tallied : turn.tallied = 0) (answer : ¬ turn.Swaps)
  /-- A clearing has come to its end: cells refilled, lines tallied, board checked again. -/
  | clears (tick next : Nat) (lines : List Line)
      (lines_eq : turn.before.grid.uniformLines = lines) (some_lines : 1 ≤ lines.length)
      (rules_eq : turn.after.rules = turn.before.rules)
      (size_eq : turn.after.grid.size = turn.before.grid.size)
      (nextId_eq : turn.after.grid.nextId =
        turn.before.grid.nextId + turn.before.grid.size * lines.length)
      (score_eq : turn.after.score = min (turn.before.score + lines.length) Score.limit)
      (generator_eq : turn.after.generator =
        (Color.randomList (turn.before.grid.size * lines.length) turn.before.generator).2)
      (selected : turn.after.selected = turn.before.selected)
      (pendingBefore : turn.before.timeline.pending =
        (Clearing.refills turn.before.grid.size lines ++ [Command.tally lines.length]).map (tick, ·))
      (pendingAfter : turn.after.timeline.pending =
        (Clearing.commands turn.after.grid.size turn.after.grid.uniformLines).map (next, ·))
      (detected : turn.detected = turn.after.grid.uniformLines.length)
      (tallied : turn.tallied = lines.length) (answer : ¬ turn.Swaps)

/-! ## Clicks -/

/-- The effect of a click on a cell. -/
theorem effect_of_clicked [Store σ] {s : Session σ} {pos : Pos}
    {reply : Reply (Session σ) ClickOutcome} (h : Clicked s pos reply) :
    Turn.Effect ⟨s, [], reply.mapAnswer some⟩ := by
  cases h with
  | ignored busy =>
    refine .quiet (SameGame.refl s) rfl rfl rfl ?_
    rintro ⟨first, second, hanswer⟩
    cases hanswer
  | missed idle error =>
    refine .quiet (SameGame.refl s) rfl rfl rfl ?_
    rintro ⟨first, second, hanswer⟩
    cases hanswer
  | @selected idle free within resized silent =>
    have hrests := Timeline.pending_of_isIdle idle
    refine .selects ⟨⟨rfl, rfl, rfl, rfl, rfl⟩, rfl⟩ rfl within hrests ?_ rfl rfl
    show (s.timeline.push resized).pending = []
    rw [s.timeline.pending_push_of_onDone_eq_none silent, hrests]
  | @cancelled idle held resized silent =>
    have hrests := Timeline.pending_of_isIdle idle
    refine .cancels ⟨⟨rfl, rfl, rfl, rfl, rfl⟩, rfl⟩ rfl hrests ?_ rfl rfl
    show (s.timeline.push resized).pending = []
    rw [s.timeline.pending_push_of_onDone_eq_none silent, hrests]
  | @swapped idle chosen held added grid swap pending =>
    have hrests := Timeline.pending_of_isIdle idle
    obtain ⟨hsize, hnextId⟩ := Grid.swap_eq_ok swap
    refine .swaps (s.timeline.tick + 3 * s.rules.phaseTicks) ⟨rfl, hsize, hnextId, rfl, rfl⟩
      rfl hrests ?_ rfl ⟨chosen, pos, rfl⟩
    show (s.timeline.append added).pending = _
    rw [Timeline.pending_append, hrests, pending, List.nil_append]

/-- A click leaves nothing pending for a tick that has gone by. -/
theorem pendingFrom_of_clicked {s : Session σ} {pos : Pos} {reply : Reply (Session σ) ClickOutcome}
    (hfrom : s.timeline.PendingFrom s.timeline.tick) (h : Clicked s pos reply) :
    reply.state.timeline.PendingFrom reply.state.timeline.tick := by
  cases h with
  | ignored busy => exact hfrom
  | missed idle error => exact hfrom
  | @selected idle free within resized silent =>
    intro entry hentry
    rw [s.timeline.pending_push_of_onDone_eq_none silent] at hentry
    exact hfrom entry hentry
  | @cancelled idle held resized silent =>
    intro entry hentry
    rw [s.timeline.pending_push_of_onDone_eq_none silent] at hentry
    exact hfrom entry hentry
  | @swapped idle chosen held added grid swap pending =>
    intro entry hentry
    simp only [Timeline.pending_append, pending, List.mem_append, List.mem_singleton] at hentry
    rcases hentry with hentry | rfl
    · exact hfrom entry hentry
    · exact Nat.le_add_right _ _

/-! ## What a step leaves pending -/

/-- A check adds commands that are due later. -/
theorem pendingFrom_of_check {s : Session σ} {reply : Reply (Session σ) Nat}
    (hfrom : s.timeline.PendingFrom (s.timeline.tick + 1)) (h : s.check = .ok reply) :
    reply.state.timeline.tick = s.timeline.tick ∧
      reply.state.timeline.PendingFrom (s.timeline.tick + 1) := by
  obtain ⟨-, hphase, added, hstate, hadded, -⟩ := check_eq_ok h
  rw [hstate]
  refine ⟨rfl, ?_⟩
  intro entry hentry
  rw [Timeline.pending_append, hadded, List.mem_append] at hentry
  rcases hentry with hentry | hentry
  · exact hfrom entry hentry
  · obtain ⟨command, hcommand, rfl⟩ := List.mem_map.mp hentry
    have hlines : s.grid.uniformLines ≠ [] := by
      intro hnone
      rw [hnone] at hcommand
      cases hcommand
    have hpos := hphase hlines
    show s.timeline.tick + 1 ≤ s.timeline.tick + 2 * s.rules.phaseTicks
    omega

theorem pendingFrom_of_execute [Store σ] {s : Session σ} {command : Command}
    {reply : Reply (Session σ) Unit} (hfrom : s.timeline.PendingFrom (s.timeline.tick + 1))
    (h : s.execute command = .ok reply) :
    reply.state.timeline.tick = s.timeline.tick ∧
      reply.state.timeline.PendingFrom (s.timeline.tick + 1) := by
  cases command with
  | check =>
    obtain ⟨found, hfound, rfl⟩ := execute_check_eq_ok h
    exact pendingFrom_of_check hfrom hfound
  | refill pos =>
    obtain ⟨grid, hstate⟩ := state_of_place h
    rw [hstate]
    exact ⟨rfl, hfrom⟩
  | tally lines =>
    obtain ⟨found, hfound, rfl⟩ := execute_tally_eq_ok h
    obtain ⟨highScore, host, hscored⟩ := s.addScore_eq lines
    rw [hscored] at hfound
    have hchecked := pendingFrom_of_check (by exact hfrom) hfound
    exact hchecked

theorem pendingFrom_of_executeAll [Store σ] {s t : Session σ} {commands : List Command}
    (hfrom : s.timeline.PendingFrom (s.timeline.tick + 1)) (h : s.executeAll commands = .ok t) :
    t.timeline.tick = s.timeline.tick ∧ t.timeline.PendingFrom (s.timeline.tick + 1) := by
  induction commands generalizing s with
  | nil =>
    obtain rfl := pure_eq_ok_iff.mp h
    exact ⟨rfl, hfrom⟩
  | cons command rest ih =>
    rw [executeAll_cons] at h
    obtain ⟨reply, hreply, h⟩ := bind_eq_ok_iff.mp h
    obtain ⟨htick, hnext⟩ := pendingFrom_of_execute hfrom hreply
    rw [← htick] at hnext ⊢
    exact ih hnext h

/-- Whatever is pending after a step is due later, and the clock has not moved. -/
theorem pendingFrom_of_step [Store σ] {s t : Session σ} (h : s.step = .ok t) :
    t.timeline.tick = s.timeline.tick ∧ t.timeline.PendingFrom (s.timeline.tick + 1) := by
  rw [step_eq_executeAll] at h
  exact pendingFrom_of_executeAll (s := s.animated) s.timeline.pendingFrom_played h

/-! ## Steps -/

/-- A step, after which the clock shows the given tick. -/
def stepTurn [Store σ] (s stepped : Session σ) (tick : Nat) : Turn σ :=
  ⟨s, s.stepExecutions, ⟨{ stepped with timeline := { stepped.timeline with tick } }, .ok none⟩⟩

theorem not_swaps_stepTurn [Store σ] (s stepped : Session σ) (tick : Nat) :
    ¬ (stepTurn s stepped tick).Swaps := by
  rintro ⟨first, second, hanswer⟩
  cases hanswer

theorem sameGame_animated (s : Session σ) : s.SameGame s.animated :=
  have same := s.timeline.sameFaces_animate s.grid
  ⟨⟨rfl, same.size_eq, same.nextId_eq, rfl, rfl⟩, same.faces_eq⟩

/-- A step at which nothing is due. -/
theorem effect_of_due_eq_nil [Store σ] {s stepped : Session σ} (tick : Nat)
    (hdue : s.timeline.due = []) (hpending : s.timeline.played.pending = s.timeline.pending)
    (h : s.step = .ok stepped) : (stepTurn s stepped tick).Effect := by
  rw [step_eq_executeAll, hdue] at h
  obtain rfl := pure_eq_ok_iff.mp h
  have same := s.sameGame_animated
  refine .quiet ⟨⟨rfl, same.size_eq, same.nextId_eq, rfl, rfl⟩, same.faces_eq⟩ rfl hpending ?_
    (not_swaps_stepTurn _ _ _)
  show s.animated.executions s.timeline.due = []
  rw [hdue, executions]

/-- What a step does at which a check is due. -/
theorem step_of_due_check [Store σ] {s stepped : Session σ} (hdue : s.timeline.due = [.check])
    (h : s.step = .ok stepped) :
    s.stepExecutions = [(s.animated, .check)] ∧
      ∃ found, s.animated.check = .ok found ∧ stepped = found.state := by
  constructor
  · rw [stepExecutions, hdue, executions_singleton]
  · rw [step_eq_executeAll, hdue] at h
    obtain ⟨reply, hreply, rfl⟩ := executeAll_singleton_eq_ok h
    obtain ⟨found, hfound, rfl⟩ := execute_check_eq_ok hreply
    exact ⟨found, hfound, rfl⟩

/-- What a step does at which cells are due to be refilled and lines to be tallied. -/
theorem step_of_due_tally [Store σ] {s stepped : Session σ} {cells : List Pos} {lines : Nat}
    (hdue : s.timeline.due = cells.map .refill ++ [.tally lines]) (h : s.step = .ok stepped) :
    ∃ refilled, s.animated.executeAll (cells.map .refill) = .ok refilled ∧
      s.stepExecutions =
        s.animated.executions (cells.map .refill) ++ [(refilled, .tally lines)] ∧
      ∃ found, (refilled.addScore lines).check = .ok found ∧ stepped = found.state := by
  rw [step_eq_executeAll, hdue] at h
  obtain ⟨refilled, hrefilled, h⟩ := executeAll_append_eq_ok h
  refine ⟨refilled, hrefilled, ?_, ?_⟩
  · rw [stepExecutions, hdue, executions_append _ hrefilled, executions_singleton]
  · obtain ⟨reply, hreply, rfl⟩ := executeAll_singleton_eq_ok h
    obtain ⟨found, hfound, rfl⟩ := execute_tally_eq_ok hreply
    exact ⟨found, hfound, rfl⟩

/-- A step at which the check after a swap is due. -/
theorem effect_of_due_check [Store σ] {s stepped : Session σ} (tick : Nat)
    (hpending : s.timeline.pending = [Command.check].map (s.timeline.tick, ·))
    (h : s.step = .ok stepped) : (stepTurn s stepped tick).Effect := by
  have hdue : s.timeline.due = [.check] := by
    rw [Timeline.due_of_pending_eq hpending, if_pos rfl]
  have hplayed : s.timeline.played.pending = [] := by
    rw [Timeline.pending_played_of_pending_eq hpending (Nat.le_refl _), if_pos rfl]
  obtain ⟨hexecuted, found, hfound, hstepped⟩ := step_of_due_check hdue h
  obtain ⟨-, -, added, hstate, hadded, -⟩ := check_eq_ok hfound
  obtain rfl := hstepped.trans hstate
  have same := s.sameGame_animated
  refine .checks s.timeline.tick (s.timeline.tick + 2 * s.rules.phaseTicks)
    ⟨⟨rfl, same.size_eq, same.nextId_eq, rfl, rfl⟩, same.faces_eq⟩ rfl hpending ?_ ?_ ?_
    (not_swaps_stepTurn _ _ _)
  · show (s.timeline.played.append added).pending = _
    rw [Timeline.pending_append, hplayed, hadded, List.nil_append]
    rfl
  · show (s.stepExecutions.map detectedLines).sum = s.animated.grid.uniformLines.length
    rw [hexecuted]
    rfl
  · show (s.stepExecutions.map (·.2.talliedLines)).sum = 0
    rw [hexecuted]
    rfl

/-- Refills neither detect nor tally a line. -/
theorem sum_executions_refills [Store σ] (s : Session σ) (cells : List Pos)
    {count : Session σ × Command → Nat} (hcount : ∀ s pos, count (s, .refill pos) = 0) :
    ((s.executions (cells.map .refill)).map count).sum = 0 := by
  rw [List.sum_eq_zero_iff_forall_eq_nat]
  intro n hn
  obtain ⟨⟨t, command⟩, hexecution, rfl⟩ := List.mem_map.mp hn
  obtain ⟨pos, -, rfl⟩ := List.mem_map.mp (mem_of_mem_executions hexecution)
  exact hcount t pos

/-- A step at which a clearing comes to its end. -/
theorem effect_of_due_clearing [Store σ] {s stepped : Session σ} (tick : Nat)
    (hlines : 1 ≤ s.grid.uniformLines.length)
    (hpending : s.timeline.pending =
      (Clearing.refills s.grid.size s.grid.uniformLines
        ++ [Command.tally s.grid.uniformLines.length]).map (s.timeline.tick, ·))
    (h : s.step = .ok stepped) : (stepTurn s stepped tick).Effect := by
  have hdue : s.timeline.due = Clearing.refills s.grid.size s.grid.uniformLines
      ++ [.tally s.grid.uniformLines.length] := by
    rw [Timeline.due_of_pending_eq hpending, if_pos rfl]
  have hplayed : s.timeline.played.pending = [] := by
    rw [Timeline.pending_played_of_pending_eq hpending (Nat.le_refl _), if_pos rfl]
  have same := s.sameGame_animated
  have hcells : ∀ pos ∈ s.grid.uniformLines.flatMap (fun line => line.cells s.grid.size),
      pos.Within s.animated.grid.size := by
    intro pos hpos
    obtain ⟨line, hline, hpos⟩ := List.mem_flatMap.mp hpos
    rw [same.size_eq]
    exact Grid.within_of_mem_uniformLines hline hpos
  obtain ⟨refilled, hrefilled, hexecuted, found, hfound, hstepped⟩ := step_of_due_tally hdue h
  obtain ⟨grid, generator, hrefilledEq, hgenerator, hsize, hnextId⟩ :=
    executeAll_refills hcells hrefilled
  have hlength : (s.grid.uniformLines.flatMap fun line => line.cells s.grid.size).length =
      s.grid.size * s.grid.uniformLines.length := by
    rw [← Clearing.length_refills, Clearing.refills, List.length_map]
  obtain ⟨highScore, host, hscored⟩ := refilled.addScore_eq s.grid.uniformLines.length
  subst hrefilledEq
  obtain ⟨-, -, added, hstate, hadded, -⟩ := check_eq_ok hfound
  rw [hscored] at hstate hadded
  obtain rfl := hstepped.trans hstate
  refine .clears s.timeline.tick (s.timeline.tick + 2 * s.rules.phaseTicks) s.grid.uniformLines rfl
    hlines rfl (hsize.trans same.size_eq) ?_ rfl ?_ rfl hpending ?_ ?_ ?_ (not_swaps_stepTurn _ _ _)
  · show grid.nextId = s.grid.nextId + s.grid.size * s.grid.uniformLines.length
    rw [hnextId, hlength, same.nextId_eq]
  · show generator = _
    rw [hgenerator, hlength]
    rfl
  · show (s.timeline.played.append added).pending = _
    rw [Timeline.pending_append, hplayed, hadded, List.nil_append]
    rfl
  · show (s.stepExecutions.map detectedLines).sum = grid.uniformLines.length
    rw [hexecuted, List.map_append, List.sum_append_nat,
      sum_executions_refills _ _ (fun _ _ => rfl), Nat.zero_add, List.map_singleton,
      List.sum_singleton, detectedLines_tally]
  · show (s.stepExecutions.map (·.2.talliedLines)).sum = s.grid.uniformLines.length
    rw [hexecuted, List.map_append, List.sum_append_nat,
      sum_executions_refills _ _ (fun _ _ => rfl), Nat.zero_add]
    rfl

/-- A step at which the pending commands are not yet due. -/
theorem effect_of_later [Store σ] {s stepped : Session σ} (tick : Nat) {commands : List Command}
    {due : Nat} (hpending : s.timeline.pending = commands.map (due, ·))
    (hlt : s.timeline.tick < due) (h : s.step = .ok stepped) :
    (stepTurn s stepped tick).Effect := by
  have hne : due ≠ s.timeline.tick := by omega
  refine effect_of_due_eq_nil tick ?_ ?_ h
  · rw [Timeline.due_of_pending_eq hpending, if_neg hne]
  · rw [Timeline.pending_played_of_pending_eq hpending (Nat.le_of_lt hlt), if_neg hne]

/-- The effect of a step in a well paced game: the pass it is in is at its end, or nothing happens. -/
theorem effect_of_step [Store σ] {s stepped : Session σ} (hs : s.WellPaced) (tick : Nat)
    (h : s.step = .ok stepped) : (stepTurn s stepped tick).Effect := by
  obtain ⟨pass, hpass⟩ := hs.inPass
  cases pass with
  | none =>
    have hpending : s.timeline.pending = [].map (s.timeline.tick + 1, ·) := hpass
    exact effect_of_later tick hpending (Nat.lt_succ_self _) h
  | check =>
    obtain ⟨due, hle, hpending⟩ := hpass
    rcases Nat.eq_or_lt_of_le hle with rfl | hlt
    · exact effect_of_due_check tick hpending h
    · have hpending : s.timeline.pending = [Command.check].map (due, ·) := hpending
      exact effect_of_later tick hpending hlt h
  | clearing =>
    obtain ⟨hlines, due, hle, hpending⟩ := hpass
    rcases Nat.eq_or_lt_of_le hle with rfl | hlt
    · exact effect_of_due_clearing tick hlines hpending h
    · exact effect_of_later tick hpending hlt h

/-! ## Turns -/

/-- A turn on a well paced game has one of the effects, and leaves nothing pending for a tick that
has gone by. -/
theorem effect_of_perform [Store σ] {s : Session σ} {call : Call} {turn : Turn σ}
    (hs : s.WellPaced) (h : s.perform call = .ok turn) :
    turn.before = s ∧ turn.Effect ∧ turn.after.timeline.PendingFrom turn.after.timeline.tick := by
  rcases perform_eq_ok h with ⟨pos, reply, hclick, rfl⟩ | ⟨stepped, after, hstep, hafter, rfl⟩
  · have hclicked := clickCell_eq_ok hclick
    exact ⟨rfl, effect_of_clicked hclicked, pendingFrom_of_clicked hs.pendingFrom hclicked⟩
  · obtain ⟨htick, hfrom⟩ := pendingFrom_of_step hstep
    -- a step alone leaves the clock where it is, a frame moves it on by one
    obtain ⟨tick, hle, rfl⟩ : ∃ tick, tick ≤ s.timeline.tick + 1 ∧
        after = { stepped with timeline := { stepped.timeline with tick } } := by
      rcases hafter with rfl | hadvance
      · exact ⟨after.timeline.tick, by omega, rfl⟩
      · exact ⟨stepped.timeline.tick + 1, by omega, advance_eq_ok hadvance⟩
    refine ⟨rfl, effect_of_step hs tick hstep, ?_⟩
    intro entry hentry
    exact Nat.le_trans hle (hfrom entry hentry)

/-- Whatever its effect, a turn on a well paced game leaves it well paced. -/
theorem wellPaced_of_effect [Store σ] {turn : Turn σ} (hbefore : turn.before.WellPaced)
    (heffect : turn.Effect) (hfrom : turn.after.timeline.PendingFrom turn.after.timeline.tick) :
    turn.after.WellPaced := by
  cases heffect with
  | quiet same selected pending executed answer =>
    refine ⟨?_, ?_, ?_⟩
    · obtain ⟨pass, hpass⟩ := hbefore.inPass
      cases pass with
      | none => exact ⟨.none, pending.trans hpass⟩
      | check =>
        obtain ⟨tick, -, hpending⟩ := hpass
        exact ⟨.check, inPass_check hfrom (pending.trans hpending)⟩
      | clearing =>
        obtain ⟨hlines, tick, -, hpending⟩ := hpass
        rw [← same.sameFaces.uniformLines_eq, ← same.size_eq] at hpending
        rw [← same.sameFaces.uniformLines_eq] at hlines
        exact ⟨.clearing, inPass_clearing hfrom hlines (pending.trans hpending)⟩
    · intro pos hpos
      rw [same.size_eq]
      exact hbefore.selected_within pos (selected.symm.trans hpos)
    · intro pos hpos
      rw [pending]
      exact hbefore.selected_rests pos (selected.symm.trans hpos)
  | selects same held within restsBefore restsAfter executed answer =>
    refine ⟨⟨.none, restsAfter⟩, ?_, fun _ _ => restsAfter⟩
    intro pos hpos
    rw [held] at hpos
    cases hpos
    exact within
  | cancels same free restsBefore restsAfter executed answer =>
    refine wellPaced_of_free ⟨.none, restsAfter⟩ ?_
    simp [free]
  | swaps tick same free restsBefore pending executed answer =>
    refine wellPaced_of_free ⟨.check, inPass_check hfrom pending⟩ ?_
    simp [free]
  | checks tick next same selected pendingBefore pendingAfter detected tallied answer =>
    refine wellPaced_of_free (inPass_of_commands hfrom pendingAfter) ?_
    rw [selected]
    exact hbefore.selected_ne_some (by simp [pendingBefore])
  | clears tick next lines lines_eq some_lines rules_eq size_eq nextId_eq score_eq generator_eq
      selected pendingBefore pendingAfter detected tallied answer =>
    refine wellPaced_of_free (inPass_of_commands hfrom pendingAfter) ?_
    rw [selected]
    exact hbefore.selected_ne_some (by simp [pendingBefore])

/-- What holds of a new game, and is kept by every effect that a turn can have, holds after every run.
Every game of the run is well paced. -/
theorem run_effect_induction [Store σ] {motive : List (Turn σ) → Session σ → Prop} {rules : Rules}
    {host : Host σ} {grid : Grid} {generator : Generator} {calls : List Call}
    {turns : List (Turn σ)} {s : Session σ}
    (first : motive [] (start rules host grid generator))
    (next : ∀ turns turn, turn.before.WellPaced → turn.Effect →
      motive turns turn.before → motive (turns ++ [turn]) turn.after)
    (h : (start rules host grid generator).run calls = .ok (turns, s)) :
    s.WellPaced ∧ motive turns s := by
  refine runAll_induction (motive := fun turns s => s.WellPaced ∧ motive turns s) ?_ ?_ h
  · exact ⟨wellPaced_start rules host grid generator, first⟩
  · rintro turns t call turn ⟨hpaced, hmotive⟩ hturn
    obtain ⟨rfl, heffect, hfrom⟩ := effect_of_perform hpaced hturn
    exact ⟨wellPaced_of_effect hpaced heffect hfrom, next turns turn hpaced heffect hmotive⟩

theorem wellPaced_of_run [Store σ] {rules : Rules} {host : Host σ} {grid : Grid}
    {generator : Generator} {calls : List Call} {turns : List (Turn σ)} {s : Session σ}
    (h : (start rules host grid generator).run calls = .ok (turns, s)) : s.WellPaced :=
  (run_effect_induction (motive := fun _ _ => True) trivial (fun _ _ _ _ _ => trivial) h).1

end Session

end OrbPuzzle
