import OrbPuzzle.Proofs.Session.Lockstep

/-!
# What a game does not depend on

Two comparisons of whole runs, both read off games in lockstep.

* Looks. Where tiles are shown and how large they are flows from one motion into the next, but never
  into the rules: games that differ only in the look of their animations have the same outline after
  every call (`outline_run_eq`).
* Waiting. The clock of a game that is at rest runs on without changing anything else, and a game
  that is continued later runs as it would have run at once, with every tick shifted by the same
  amount (`run_after_waiting`).
-/

namespace OrbPuzzle

/-- Lists that are related element by element look the same to functions that agree on related
elements. -/
theorem map_eq_of_forall₂ {α β γ : Type} {R : α → β → Prop} {f : α → γ} {g : β → γ}
    {xs : List α} {ys : List β} (h : List.Forall₂ R xs ys) (himp : ∀ a b, R a b → g b = f a) :
    ys.map g = xs.map f := by
  induction h with
  | nil => rfl
  | cons hab _ ih => rw [List.map_cons, List.map_cons, himp _ _ hab, ih]

theorem eq_map_of_forall₂ {α β : Type} {R : α → β → Prop} {f : α → β} {xs : List α} {ys : List β}
    (h : List.Forall₂ R xs ys) (himp : ∀ a b, R a b → b = f a) : ys = xs.map f := by
  simpa using map_eq_of_forall₂ (g := id) h himp

/-! ## Looks -/

/-- A transition without the values between which it runs: its span, what it moves and how, and its
command. -/
def Transition.outline {κ : Type} (t : Transition κ) :
    Nat × Nat × Option (TileId × Field × Easing) × Option κ :=
  (t.start, t.stop, t.motion.map Motion.path, t.onDone)

theorem Transition.InStep.outline_eq {κ : Type} {strict : Prop} {t u : Transition κ}
    (same : InStep 0 strict t u) : u.outline = t.outline := by
  unfold outline
  rw [same.start_eq, same.stop_eq, same.path_eq, same.onDone_eq, Nat.add_zero, Nat.add_zero]

namespace Session

variable {σ : Type}

/-- What is left of a game when its look is taken away: everything but the numbers that say where
and how large its tiles are shown, now and in the course of its transitions. -/
structure Outline (σ : Type) where
  tick : Nat
  active : List (Nat × Nat × Option (TileId × Field × Easing) × Option Command)
  size : Nat
  /-- The id and the colour in every slot. -/
  faces : Array (TileId × Color)
  nextId : TileId
  score : Nat
  highScore : Nat
  selected : Option Pos
  generator : Generator
  /-- The host, and with it the stored high score. -/
  host : Host σ

/-- The outline of a game. -/
def outline (s : Session σ) : Outline σ where
  tick := s.timeline.tick
  active := s.timeline.active.map Transition.outline
  size := s.grid.size
  faces := s.grid.faces
  nextId := s.grid.nextId
  score := s.score
  highScore := s.highScore
  selected := s.selected
  generator := s.generator
  host := s.host

/-- The outline of a turn: that of the game before it, of the games on which commands were carried
out, with these commands, and of the game after it, with the answer. -/
def Turn.outline (turn : Turn σ) :
    Outline σ × List (Outline σ × Command) ×
      Outline σ × Except OutOfBounds (Option ClickOutcome) :=
  (turn.before.outline, turn.executed.map fun execution => (execution.1.outline, execution.2),
    turn.after.outline, turn.reply.answer)

/-- The outline of a run: that of its turns, and of the game after the last of them. -/
def runOutline (r : List (Turn σ) × Session σ) :
    List (Outline σ × List (Outline σ × Command) ×
      Outline σ × Except OutOfBounds (Option ClickOutcome)) × Outline σ :=
  (r.1.map Turn.outline, r.2.outline)

/-- Games in step on one clock have the same outline. -/
theorem InStep.outline_eq {strict : Prop} {s t : Session σ} (same : s.InStep 0 strict t) :
    t.outline = s.outline := by
  unfold outline
  rw [same.timeline.tick_eq,
    map_eq_of_forall₂ same.timeline.active (fun _ _ => Transition.InStep.outline_eq),
    same.grid.size_eq, same.grid.faces_eq, same.grid.nextId_eq, same.score_eq, same.highScore_eq,
    same.selected_eq, same.generator_eq, same.host_eq, Nat.add_zero]

theorem Turn.InStep.outline_eq {strict : Prop} {turn turn' : Turn σ}
    (same : turn.InStep 0 strict turn') : turn'.outline = turn.outline := by
  have hexecuted := map_eq_of_forall₂ (f := fun execution => (execution.1.outline, execution.2))
    (g := fun execution => (execution.1.outline, execution.2)) same.executed
    (fun _ _ h => by rw [h.1.outline_eq, h.2])
  have hafter : turn'.after.outline = turn.after.outline := same.reply.state.outline_eq
  rw [outline, outline, same.before.outline_eq, hexecuted, hafter, same.reply.answer_eq]

/-- The look of its animations has no part in a game. Two new games on the same board, with the same
host and generator, whose rules have only their pace in common, have the same outline along every
run: each call has the same outcome on both, and if one of them faults, so does the other. -/
theorem outline_run_eq [Store σ] (rules other : Rules) (hphase : 0 < rules.phaseTicks)
    (hpace : other.phaseTicks = rules.phaseTicks) (host : Host σ) (grid : Grid)
    (generator : Generator) (calls : List Call) :
    ((start other host grid generator).run calls).map runOutline =
      ((start rules host grid generator).run calls).map runOutline := by
  have same : (start rules host grid generator).InStep 0 False (start other host grid generator) :=
    { rules := ⟨hphase, hpace, False.elim⟩
      grid := Grid.InStep.refl False grid
      timeline := ⟨rfl, .nil⟩
      score_eq := rfl
      highScore_eq := rfl
      selected_eq := rfl
      generator_eq := rfl
      host_eq := rfl }
  have hruns := same.run calls
  generalize (start rules host grid generator).run calls = first,
    (start other host grid generator).run calls = second at hruns
  cases hruns with
  | ok related =>
    obtain ⟨hturns, hend⟩ := related
    have hturns := map_eq_of_forall₂ hturns fun _ _ => Turn.InStep.outline_eq
    simp only [Except.map, runOutline, hturns, hend.outline_eq]
  | both => rfl
  | ahead pos => exact absurd pos (Nat.lt_irrefl 0)

/-- Rules as strange to look at as any, but of the pace of the short game. -/
def strangeRules : Rules where
  gridSize := 0
  phaseTicks := 1
  ticksPerSecond := .nan
  clearedScale := .nan
  slideDistance := .infinite true

/-- With strange rules the short game is played as before: a line is cleared and scored. -/
theorem outline_run_eq_strangeRules :
    ∃ turns s, (start strangeRules .inMemory crossedGrid ⟨0⟩).run shortCalls = .ok (turns, s) ∧
      s.score = 1 ∧ s.timeline.tick = 10 := by
  have hrun : ((start strangeRules .inMemory crossedGrid ⟨0⟩).run shortCalls).map runOutline =
      (shortGame.run shortCalls).map runOutline :=
    outline_run_eq { phaseTicks := 1 } strangeRules (by decide) rfl .inMemory crossedGrid ⟨0⟩
      shortCalls
  obtain ⟨⟨turns, s⟩, hshort, hend⟩ := exists_of_any_toOption (x := shortGame.run shortCalls)
    (fun r => decide (r.2.score = 1 ∧ r.2.timeline.tick = 10)) (by decide +kernel)
  obtain ⟨hscore, htick⟩ := of_decide_eq_true hend
  rw [hshort] at hrun
  cases hstrange : (start strangeRules .inMemory crossedGrid ⟨0⟩).run shortCalls with
  | error fault =>
    rw [hstrange] at hrun
    cases hrun
  | ok r =>
    rw [hstrange] at hrun
    have hout : r.2.outline = s.outline := congrArg Prod.snd (Except.ok.inj hrun)
    exact ⟨r.1, r.2, rfl, (congrArg Outline.score hout).trans hscore,
      (congrArg Outline.tick hout).trans htick⟩

end Session

/-! ## Waiting -/

/-- The transition with its span moved to later ticks. -/
def Transition.later {κ : Type} (m : Nat) (t : Transition κ) : Transition κ where
  start := t.start + m
  stop := t.stop + m
  motion := t.motion
  onDone := t.onDone
  start_lt_stop := Nat.add_lt_add_right t.start_lt_stop m

/-- The timeline with the clock and every span moved to later ticks. -/
def Timeline.later {κ : Type} (m : Nat) (t : Timeline κ) : Timeline κ where
  tick := t.tick + m
  active := t.active.map (Transition.later m)

theorem Transition.InStep.eq_later {κ : Type} {m : Nat} {t u : Transition κ}
    (same : InStep m True t u) : u = t.later m := by
  obtain ⟨start, stop, motion, onDone, hspan⟩ := u
  obtain ⟨rfl, rfl, rfl, -, hmotion⟩ := same
  obtain rfl : motion = t.motion := hmotion trivial
  rfl

theorem Transition.inStep_later {κ : Type} (m : Nat) (strict : Prop) (t : Transition κ) :
    InStep m strict t (t.later m) :=
  ⟨rfl, rfl, rfl, rfl, fun _ => rfl⟩

namespace Session

variable {σ : Type}

/-- The game at a later time: its clock and all its transitions are moved by the same number of
ticks, and nothing else is changed. -/
def later (m : Nat) (s : Session σ) : Session σ := { s with timeline := s.timeline.later m }

/-- The turn at a later time. -/
def Turn.later (m : Nat) (turn : Turn σ) : Turn σ where
  before := turn.before.later m
  executed := turn.executed.map fun execution => (execution.1.later m, execution.2)
  reply := turn.reply.mapState (Session.later m)

variable {m : Nat}

theorem InStep.eq_later {s t : Session σ} (same : s.InStep m True t) : t = s.later m := by
  have hactive : t.timeline.active = s.timeline.active.map (Transition.later m) :=
    eq_map_of_forall₂ same.timeline.active fun _ _ => Transition.InStep.eq_later
  have htick := same.timeline.tick_eq
  obtain ⟨rules, grid, ⟨tick, active⟩, score, highScore, selected, generator, host⟩ := t
  obtain ⟨hrules, hgrid, -, rfl, rfl, rfl, rfl, rfl⟩ := same
  obtain rfl : rules = s.rules := hrules.eq_of_strict trivial
  obtain rfl : grid = s.grid := hgrid.eq_of_strict trivial
  obtain rfl : tick = s.timeline.tick + m := htick
  obtain rfl : active = s.timeline.active.map (Transition.later m) := hactive
  rfl

theorem Turn.InStep.eq_later {turn turn' : Turn σ} (same : turn.InStep m True turn') :
    turn' = turn.later m := by
  have hexecuted : turn'.executed =
      turn.executed.map fun execution => (execution.1.later m, execution.2) :=
    eq_map_of_forall₂ same.executed fun _ _ h => Prod.ext h.1.eq_later h.2
  obtain ⟨before, executed, ⟨after, answer⟩⟩ := turn'
  obtain rfl : before = turn.before.later m := same.before.eq_later
  obtain rfl : after = turn.after.later m := same.reply.state.eq_later
  obtain rfl : answer = turn.reply.answer := same.reply.answer_eq
  obtain rfl : executed = _ := hexecuted
  rfl

/-- A game and the same game at a later time are in step. -/
theorem inStep_later {s : Session σ} (hphase : 0 < s.rules.phaseTicks) (m : Nat) :
    s.InStep m True (s.later m) where
  rules := ⟨hphase, rfl, fun _ => rfl⟩
  grid := Grid.InStep.refl True s.grid
  timeline := by
    refine ⟨rfl, List.forall₂_map_right_iff.mpr (List.forall₂_same.mpr ?_)⟩
    intro t _
    exact t.inStep_later m True
  score_eq := rfl
  highScore_eq := rfl
  selected_eq := rfl
  generator_eq := rfl
  host_eq := rfl

/-- A game that is continued at a later time runs as it would have run now, unless it runs out of
ticks. -/
theorem run_later [Store σ] {s : Session σ} (hphase : 0 < s.rules.phaseTicks) (m : Nat)
    (calls : List Call) (hroom : (s.later m).run calls ≠ .error .sumTooLarge) :
    ∃ turns t, s.run calls = .ok (turns, t) ∧
      (s.later m).run calls = .ok (turns.map (Turn.later m), t.later m) := by
  have hruns := (inStep_later hphase m).run calls
  generalize s.run calls = first, (s.later m).run calls = second at hruns hroom
  -- a fault of either game would be one of the later game, which has room
  cases hruns with
  | @ok r r' related =>
    obtain ⟨hturns, hend⟩ := related
    have hturns : r'.1 = r.1.map (Turn.later m) :=
      eq_map_of_forall₂ hturns fun _ _ => Turn.InStep.eq_later
    exact ⟨r.1, r.2, rfl, congrArg Except.ok (Prod.ext hturns hend.eq_later)⟩
  | both => exact absurd rfl hroom
  | ahead pos => exact absurd rfl hroom

/-! ### A game at rest -/

/-- A game at rest is moved to a later time by its clock alone. -/
theorem later_of_isIdle {s : Session σ} (hidle : s.timeline.isIdle = true) (m : Nat) :
    s.later m = { s with timeline := { s.timeline with tick := s.timeline.tick + m } } := by
  have hactive : s.timeline.active = [] := List.isEmpty_iff.mp hidle
  simp only [later, Timeline.later, hactive, List.map_nil]

theorem isIdle_later (s : Session σ) (m : Nat) :
    (s.later m).timeline.isIdle = s.timeline.isIdle := by
  simp [later, Timeline.later, Timeline.isIdle]

theorem later_later (s : Session σ) (m n : Nat) : (s.later m).later n = s.later (m + n) := by
  simp [later, Timeline.later, Transition.later, Function.comp_def, Nat.add_assoc]

/-- In a game at rest a frame moves the clock on and does nothing else. -/
theorem update_of_isIdle [Store σ] {s : Session σ} (hidle : s.timeline.isIdle = true)
    (htick : s.timeline.tick + 1 < Count.limit) : s.update = .ok (s.later 1) := by
  have hactive : s.timeline.active = [] := List.isEmpty_iff.mp hidle
  have hdue : s.timeline.due = [] := by rw [Timeline.due, hactive, List.filterMap_nil]
  have hanimated : s.animated = s := by
    obtain ⟨rules, grid, ⟨tick, active⟩, score, highScore, selected, generator, host⟩ := s
    obtain rfl : active = [] := hactive
    rfl
  have hstep : s.step = .ok s := by
    rw [step_eq_executeAll, hdue, hanimated]
    rfl
  have hadvance : s.advance = .ok (s.later 1) := by
    rw [later_of_isIdle hidle, advance, Timeline.advance, Count.add, if_pos htick]
    rfl
  rw [update, hstep]
  exact hadvance

/-- In a game at rest any number of frames moves the clock on and does nothing else. -/
theorem run_replicate_update [Store σ] {s : Session σ} (hidle : s.timeline.isIdle = true)
    (hm : s.timeline.tick + m < Count.limit) :
    ∃ turns, s.run (List.replicate m .update) = .ok (turns, s.later m) := by
  induction m generalizing s with
  | zero =>
    rw [later_of_isIdle hidle]
    exact ⟨[], rfl⟩
  | succ m ih =>
    have hturn : s.perform .update = .ok ⟨s, s.stepExecutions, ⟨s.later 1, .ok none⟩⟩ :=
      bind_eq_ok_iff.mpr ⟨s.later 1, update_of_isIdle hidle (by omega), rfl⟩
    have hidle' : (s.later 1).timeline.isIdle = true := by rw [isIdle_later, hidle]
    have hm' : (s.later 1).timeline.tick + m < Count.limit := by
      show s.timeline.tick + 1 + m < Count.limit
      omega
    obtain ⟨turns, hturns⟩ := ih hidle' hm'
    rw [later_later, Nat.add_comm 1 m] at hturns
    refine ⟨⟨s, s.stepExecutions, ⟨s.later 1, .ok none⟩⟩ :: turns, ?_⟩
    exact bind_eq_ok_iff.mpr ⟨_, hturn, bind_eq_ok_iff.mpr ⟨_, hturns, rfl⟩⟩

/-- How long a player waits between moves does not matter. In a game at rest, any number of frames
changes nothing but the clock. Whatever calls follow, the game that has waited runs as it would have
run at once: each turn carries out the same commands and gives the same answer, and every game of
the run is the same but for its ticks, as long as these do not run out. -/
theorem run_after_waiting [Store σ] {s : Session σ} {m : Nat} (hphase : 0 < s.rules.phaseTicks)
    (hidle : s.timeline.isIdle = true) (hm : s.timeline.tick + m < Count.limit) :
    ∃ waits waited, s.run (List.replicate m .update) = .ok (waits, waited) ∧
      waited = { s with timeline := { s.timeline with tick := s.timeline.tick + m } } ∧
      ∀ calls, waited.run calls ≠ .error .sumTooLarge →
        ∃ turns t, s.run calls = .ok (turns, t) ∧
          waited.run calls = .ok (turns.map (Turn.later m), t.later m) := by
  obtain ⟨waits, hwaits⟩ := run_replicate_update hidle hm
  refine ⟨waits, s.later m, hwaits, later_of_isIdle hidle m, ?_⟩
  intro calls hroom
  exact run_later hphase m calls hroom

/-- In the short game an orb is held for a long time before it is swapped. The swap and the clearing
after it come out as if it had been swapped at once. -/
theorem run_after_waiting_shortGame :
    ∃ turns s waits waited moves t, shortGame.run (shortCalls.take 4) = .ok (turns, s) ∧
      s.selected = some ⟨0, 0⟩ ∧
      s.run (List.replicate 1000000 .update) = .ok (waits, waited) ∧
      s.run (shortCalls.drop 4) = .ok (moves, t) ∧ t.score = 1 ∧
      waited.run (shortCalls.drop 4) = .ok (moves.map (Turn.later 1000000), t.later 1000000) := by
  obtain ⟨⟨turns, s⟩, hrun, hend⟩ := exists_of_any_toOption
    (x := shortGame.run (shortCalls.take 4))
    (fun (_, s) => decide (s.selected = some ⟨0, 0⟩ ∧ 0 < s.rules.phaseTicks ∧
        s.timeline.isIdle = true ∧ s.timeline.tick + 1000000 < Count.limit) &&
      (s.run (shortCalls.drop 4)).toOption.any (fun (_, t) => decide (t.score = 1)) &&
      ((s.later 1000000).run (shortCalls.drop 4)).toOption.isSome) (by decide +kernel)
  simp only [Bool.and_eq_true, decide_eq_true_eq] at hend
  obtain ⟨⟨⟨hselected, hphase, hidle, hroom⟩, hscore⟩, hlate⟩ := hend
  obtain ⟨r, hmoves, hscore⟩ := exists_of_any_toOption _ hscore
  have hlate : (s.later 1000000).run (shortCalls.drop 4) ≠ .error .sumTooLarge := by
    intro herror
    rw [herror] at hlate
    cases hlate
  obtain ⟨waits, waited, hwaits, rfl, hafter⟩ := run_after_waiting hphase hidle hroom
  rw [← later_of_isIdle hidle] at hwaits hafter
  obtain ⟨moves, t, hmoves', hlater⟩ := hafter (shortCalls.drop 4) hlate
  obtain rfl : r = (moves, t) := Except.ok.inj (hmoves.symm.trans hmoves')
  exact ⟨turns, s, waits, _, moves, t, hrun, hselected, hwaits, hmoves, of_decide_eq_true hscore,
    hlater⟩

end Session

end OrbPuzzle
