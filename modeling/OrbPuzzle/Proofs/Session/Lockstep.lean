import OrbPuzzle.Proofs.Session.Effects
import OrbPuzzle.Proofs.Timeline.Lockstep

/-!
# Games in lockstep

Two games are in step if they agree on everything that the rules see, up to a fixed number of ticks
on the clock. How they look may differ: the rules of the two need to have only their pace in common.
If they are compared strictly, nothing but the ticks may differ.

Every operation on games in step gives replies in step (`InStep.clickCell`, `InStep.execute` and the
operations behind them), and so does every run (`InStep.run`).
-/

namespace OrbPuzzle

variable {lag : Nat} {strict : Prop}

/-- Rules of the same pace, and equal rules if they are compared strictly. -/
structure Rules.InStep (strict : Prop) (r r' : Rules) : Prop where
  pos : 0 < r.phaseTicks
  phaseTicks_eq : r'.phaseTicks = r.phaseTicks
  eq_of_strict : strict → r' = r

/-- Two replies with the same answer, whose states are related. -/
structure Reply.InStep {σ τ α : Type} (R : σ → τ → Prop) (r : Reply σ α) (r' : Reply τ α) :
    Prop where
  state : R r.state r'.state
  answer_eq : r'.answer = r.answer

/-! ## Clearings -/

namespace Clearing

variable {rules rules' : Rules} {g h : Grid}

/-- Two schedules that differ by a number of ticks. -/
structure Schedule.InStep (lag : Nat) (a b : Schedule) : Prop where
  start_eq : b.start = a.start + lag
  shrunk_eq : b.shrunk = a.shrunk + lag
  gone_eq : b.gone = a.gone + lag
  start_lt_shrunk : a.start < a.shrunk
  shrunk_lt_gone : a.shrunk < a.gone

theorem follows_starting (start : Nat) {phase : Nat} (hphase : 0 < phase) :
    Follows lag (Schedule.InStep lag) (Schedule.starting start phase)
      (Schedule.starting (start + lag) phase) := by
  refine (follows_add start phase).bind ?_
  rintro shrunk _ - - ⟨hshrunk, rfl⟩
  refine (follows_add shrunk phase).bind ?_
  rintro gone _ - - ⟨hgone, rfl⟩
  have hshrinks : start < shrunk := by omega
  have hslides : shrunk < gone := by omega
  exact .ok ⟨rfl, rfl, rfl, hshrinks, hslides⟩

variable {ticks ticks' : Schedule}

theorem follows_cellTransitions (hrules : rules.InStep strict rules')
    (hticks : ticks.InStep lag ticks') (line : Line) (pos : Pos) {tile tile' : Tile}
    (hface : tile'.face = tile.face) (htile : strict → tile' = tile) :
    Follows lag (List.Forall₂ (Transition.InStep lag strict))
      (cellTransitions rules ticks line pos tile)
      (cellTransitions rules' ticks' line pos tile') := by
  have hid : tile'.id = tile.id := congrArg Prod.fst hface
  refine (Transition.follows_make strict _ hticks.start_lt_shrunk hticks.start_eq hticks.shrunk_eq
    ?_ ?_).bind ?_
  · simp only [Option.map_some, Motion.path, hid]
  · intro hstrict
    rw [htile hstrict, hrules.eq_of_strict hstrict]
  intro shrink shrink' _ _ hshrink
  refine (Transition.follows_make strict _ hticks.shrunk_lt_gone hticks.shrunk_eq hticks.gone_eq
    ?_ ?_).bind ?_
  · simp only [Option.map_some, Motion.path, hid]
  · intro hstrict
    rw [htile hstrict, hrules.eq_of_strict hstrict]
  intro slide slide' _ _ hslide
  exact .ok (.cons hshrink (.cons hslide .nil))

theorem follows_transitions (hrules : rules.InStep strict rules') (hticks : ticks.InStep lag ticks')
    (hgrid : g.InStep strict h) (cells : List (Line × Pos)) :
    Follows lag (Reply.InStep (List.Forall₂ (Transition.InStep lag strict)))
      (transitions rules ticks g cells) (transitions rules' ticks' h cells) := by
  induction cells with
  | nil => exact .ok ⟨.nil, rfl⟩
  | cons cell rest ih =>
    obtain ⟨line, pos⟩ := cell
    unfold transitions
    obtain ⟨e, hg, hh⟩ | ⟨tile, tile', hg, hh, hface, htile⟩ := hgrid.tileAt pos
    · rw [hg, hh]
      exact .ok ⟨.nil, rfl⟩
    · rw [hg, hh]
      refine (follows_cellTransitions hrules hticks line pos hface htile).bind ?_
      intro first first' _ _ hfirst
      refine ih.bind ?_
      intro others others' _ _ hothers
      exact .ok ⟨List.rel_append hfirst hothers.state, hothers.answer_eq⟩

/-- Clearings of the same lines are queued in step. -/
theorem follows_queue (hrules : rules.InStep strict rules') (hgrid : g.InStep strict h)
    (lines : List Line) {t u : Timeline Command} (htimeline : t.InStep lag strict u) :
    Follows lag (Reply.InStep (Timeline.InStep lag strict)) (queue rules g lines t)
      (queue rules' h lines u) := by
  unfold queue
  rw [hrules.phaseTicks_eq, htimeline.tick_eq, hgrid.size_eq]
  split
  · exact .ok ⟨htimeline, rfl⟩
  · refine (follows_starting t.tick hrules.pos).bind ?_
    intro ticks ticks' _ _ hticks
    refine (follows_transitions hrules hticks hgrid _).bind ?_
    rintro ⟨added, answer⟩ ⟨added', answer'⟩ - - ⟨hadded, hanswer⟩
    obtain rfl : answer' = answer := hanswer
    cases answer' with
    | error e => exact .ok ⟨htimeline.append hadded, rfl⟩
    | ok _ =>
      refine (Transition.follows_make strict _ hticks.shrunk_lt_gone hticks.shrunk_eq hticks.gone_eq
        rfl fun _ => rfl).bind ?_
      intro report report' _ _ hreport
      exact .ok ⟨htimeline.append (List.rel_append hadded (.cons hreport .nil)), rfl⟩

end Clearing

namespace Session

variable {σ : Type}

/-- Two games that the rules cannot tell apart, except by the clock. -/
structure InStep (lag : Nat) (strict : Prop) (s t : Session σ) : Prop where
  rules : s.rules.InStep strict t.rules
  grid : s.grid.InStep strict t.grid
  timeline : s.timeline.InStep lag strict t.timeline
  score_eq : t.score = s.score
  highScore_eq : t.highScore = s.highScore
  selected_eq : t.selected = s.selected
  generator_eq : t.generator = s.generator
  host_eq : t.host = s.host

/-- The same commands, carried out on games in step. -/
def ExecutionsInStep (lag : Nat) (strict : Prop) :
    List (Session σ × Command) → List (Session σ × Command) → Prop :=
  List.Forall₂ fun execution execution' =>
    execution.1.InStep lag strict execution'.1 ∧ execution'.2 = execution.2

/-- Two turns that do the same to games in step. -/
structure Turn.InStep (lag : Nat) (strict : Prop) (turn turn' : Turn σ) : Prop where
  before : turn.before.InStep lag strict turn'.before
  executed : ExecutionsInStep lag strict turn.executed turn'.executed
  reply : turn.reply.InStep (Session.InStep lag strict) turn'.reply

variable {s t : Session σ}

theorem InStep.append (same : s.InStep lag strict t) {added added' : List (Transition Command)}
    (hadded : List.Forall₂ (Transition.InStep lag strict) added added') :
    InStep lag strict { s with timeline := s.timeline.append added }
      { t with timeline := t.timeline.append added' } :=
  { same with timeline := same.timeline.append hadded }

/-! ## Clicks -/

theorem follows_resizing {id id' : TileId} (hid : id' = id)
    {source target source' target' : Single} (hsource : strict → source' = source)
    (htarget : strict → target' = target) {start stop : Nat} (hspan : start < stop)
    (onDone : Option Command) :
    Follows lag (Transition.InStep lag strict) (resizing id source target start stop onDone)
      (resizing id' source' target' (start + lag) (stop + lag) onDone) := by
  subst hid
  refine Transition.follows_make strict _ hspan rfl rfl rfl ?_
  intro hstrict
  rw [hsource hstrict, htarget hstrict]

/-- Changing the scale of a tile. Where the values come from does not matter, unless the games are
compared strictly. -/
theorem InStep.resize (same : s.InStep lag strict t) (pos : Pos)
    {source target source' target' : Single} (hsource : strict → source' = source)
    (htarget : strict → target' = target) :
    Follows lag (Reply.InStep (InStep lag strict)) (s.resize pos source target)
      (t.resize pos source' target') := by
  unfold Session.resize
  rw [same.rules.phaseTicks_eq, same.timeline.tick_eq]
  refine (follows_add s.timeline.tick s.rules.phaseTicks).bind ?_
  rintro stop _ - - ⟨hstop, rfl⟩
  have hpos := same.rules.pos
  obtain ⟨e, hg, hh⟩ | ⟨tile, tile', hg, hh, hface, -⟩ := same.grid.tileAt pos
  · rw [hg, hh]
    exact .ok ⟨same, rfl⟩
  · have hid : tile'.id = tile.id := congrArg Prod.fst hface
    have hspan : s.timeline.tick < stop := by omega
    rw [hg, hh]
    refine (follows_resizing hid hsource htarget hspan none).bind ?_
    intro resized resized' _ _ hresized
    exact .ok ⟨same.append (.cons hresized .nil), rfl⟩

section Swap

variable {rules rules' : Rules} {first first' second second' : Tile}

theorem follows_moving {mover mover' target target' : Tile} (field : Field)
    (hmover : mover'.face = mover.face) (hmoverEq : strict → mover' = mover)
    (htargetEq : strict → target' = target) {start stop : Nat} (hspan : start < stop) :
    Follows lag (Transition.InStep lag strict) (moving mover target field start stop)
      (moving mover' target' field (start + lag) (stop + lag)) := by
  have hid : mover'.id = mover.id := congrArg Prod.fst hmover
  refine Transition.follows_make strict _ hspan rfl rfl ?_ ?_
  · simp only [Option.map_some, Motion.path, hid]
  · intro hstrict
    rw [hmoverEq hstrict, htargetEq hstrict]

theorem follows_swapTransitions (hrules : rules.InStep strict rules') (tick : Nat)
    (hfirst : first'.face = first.face) (hfirstEq : strict → first' = first)
    (hsecond : second'.face = second.face) (hsecondEq : strict → second' = second) :
    Follows lag (List.Forall₂ (Transition.InStep lag strict))
      (swapTransitions rules tick first second)
      (swapTransitions rules' (tick + lag) first' second') := by
  have hpos := hrules.pos
  have hrest : strict → rules'.restScale = rules.restScale := by
    intro hstrict
    rw [hrules.eq_of_strict hstrict]
  have hsmall : strict → rules'.selectedScale = rules.selectedScale := by
    intro hstrict
    rw [hrules.eq_of_strict hstrict]
  have hfirstId : first'.id = first.id := congrArg Prod.fst hfirst
  have hsecondId : second'.id = second.id := congrArg Prod.fst hsecond
  unfold swapTransitions
  rw [hrules.phaseTicks_eq]
  refine (follows_add tick rules.phaseTicks).bind ?_
  rintro shrunk _ - - ⟨hshrunk, rfl⟩
  refine (follows_add shrunk rules.phaseTicks).bind ?_
  rintro moved _ - - ⟨hmoved, rfl⟩
  refine (follows_add moved rules.phaseTicks).bind ?_
  rintro grown _ - - ⟨hgrown, rfl⟩
  have hshrinking : tick < shrunk := by omega
  have hmoving : shrunk < moved := by omega
  have hgrowing : moved < grown := by omega
  refine (follows_resizing hsecondId hrest hsmall hshrinking none).bind fun _ _ _ _ h₁ => ?_
  refine (follows_moving .centerX hsecond hsecondEq hfirstEq hmoving).bind fun _ _ _ _ h₂ => ?_
  refine (follows_moving .centerY hsecond hsecondEq hfirstEq hmoving).bind fun _ _ _ _ h₃ => ?_
  refine (follows_moving .centerX hfirst hfirstEq hsecondEq hmoving).bind fun _ _ _ _ h₄ => ?_
  refine (follows_moving .centerY hfirst hfirstEq hsecondEq hmoving).bind fun _ _ _ _ h₅ => ?_
  refine (follows_resizing hsecondId hsmall hrest hgrowing none).bind fun _ _ _ _ h₆ => ?_
  refine (follows_resizing hfirstId hsmall hrest hgrowing _).bind fun _ _ _ _ h₇ => ?_
  exact .ok (.cons h₁ (.cons h₂ (.cons h₃ (.cons h₄ (.cons h₅ (.cons h₆ (.cons h₇ .nil)))))))

end Swap

theorem InStep.swap (same : s.InStep lag strict t) (first second : Pos) :
    Follows lag (Reply.InStep (InStep lag strict)) (s.swap first second) (t.swap first second) := by
  unfold Session.swap
  obtain ⟨e, hg, hh⟩ | ⟨firstTile, firstTile', hg, hh, hfirst, hfirstEq⟩ := same.grid.tileAt first
  · rw [hg, hh]
    exact .ok ⟨same, rfl⟩
  obtain ⟨e, hg', hh'⟩ | ⟨secondTile, secondTile', hg', hh', hsecond, hsecondEq⟩ :=
    same.grid.tileAt second
  · rw [hg, hh, hg', hh']
    exact .ok ⟨same, rfl⟩
  rw [hg, hh, hg', hh', same.timeline.tick_eq]
  refine (follows_swapTransitions same.rules _ hfirst hfirstEq hsecond hsecondEq).bind ?_
  intro added added' _ _ hadded
  obtain ⟨e, hk, hk'⟩ | ⟨k, k', hk, hk', hgrid⟩ := same.grid.swap first second
  · rw [hk, hk']
    exact .ok ⟨same.append hadded, rfl⟩
  · rw [hk, hk']
    exact .ok ⟨{ same.append hadded with grid := hgrid }, rfl⟩

theorem follows_concludeClick {reply reply' : Except Fault (Reply (Session σ) Unit)}
    (h : Follows lag (Reply.InStep (InStep lag strict)) reply reply') (selected : Option Pos)
    (outcome : ClickOutcome) :
    Follows lag (Reply.InStep (InStep lag strict)) (concludeClick reply selected outcome)
      (concludeClick reply' selected outcome) := by
  refine h.bind ?_
  rintro ⟨s, answer⟩ ⟨t, answer'⟩ - - ⟨same, hanswer⟩
  obtain rfl : answer' = answer := hanswer
  cases answer' with
  | error e => exact .ok ⟨same, rfl⟩
  | ok _ => exact .ok ⟨{ same with selected_eq := rfl }, rfl⟩

theorem InStep.clickCell (same : s.InStep lag strict t) (pos : Pos) :
    Follows lag (Reply.InStep (InStep lag strict)) (s.clickCell pos) (t.clickCell pos) := by
  have hrest : strict → t.rules.restScale = s.rules.restScale := by
    intro hstrict
    rw [same.rules.eq_of_strict hstrict]
  have hsmall : strict → t.rules.selectedScale = s.rules.selectedScale := by
    intro hstrict
    rw [same.rules.eq_of_strict hstrict]
  unfold Session.clickCell
  rw [same.timeline.isIdle_eq, same.selected_eq]
  dsimp only
  split
  · exact .ok ⟨same, rfl⟩
  · cases s.selected with
    | none => exact follows_concludeClick (same.resize pos hrest hsmall) _ _
    | some chosen =>
      dsimp only
      split
      · exact follows_concludeClick (same.resize pos hsmall hrest) _ _
      · exact follows_concludeClick (same.swap chosen pos) _ _

/-! ## Commands -/

theorem InStep.check (same : s.InStep lag strict t) :
    Follows lag (Reply.InStep (InStep lag strict)) s.check t.check := by
  unfold Session.check
  rw [same.grid.uniformLines_eq]
  refine (Clearing.follows_queue same.rules same.grid _ same.timeline).bind ?_
  intro reply reply' _ _ hreply
  exact .ok ⟨{ same with timeline := hreply.state }, hreply.answer_eq⟩

theorem InStep.place (same : s.InStep lag strict t) (pos : Pos) (draw : Color × Generator) :
    Follows lag (Reply.InStep (InStep lag strict)) (s.place pos draw) (t.place pos draw) := by
  refine (same.grid.respawn pos draw.1).bind ?_
  rintro answer answer' - - (⟨e, rfl, rfl⟩ | ⟨id, k, k', rfl, rfl, hgrid⟩)
  · exact .ok ⟨{ same with generator_eq := rfl }, rfl⟩
  · exact .ok ⟨{ same with grid := hgrid, generator_eq := rfl }, rfl⟩

theorem InStep.addScore [Store σ] (same : s.InStep lag strict t) (lines : Nat) :
    InStep lag strict (s.addScore lines) (t.addScore lines) := by
  unfold Session.addScore
  rw [same.score_eq, same.highScore_eq, same.host_eq]
  dsimp only
  split
  · exact { same with score_eq := rfl, highScore_eq := rfl, host_eq := rfl }
  · exact { same with score_eq := rfl, highScore_eq := rfl, host_eq := rfl }

theorem InStep.execute [Store σ] (same : s.InStep lag strict t) (command : Command) :
    Follows lag (Reply.InStep (InStep lag strict)) (s.execute command) (t.execute command) := by
  cases command with
  | check =>
    refine same.check.bind ?_
    intro reply reply' _ _ hreply
    refine .ok ⟨hreply.state, ?_⟩
    simp only [Reply.mapAnswer, hreply.answer_eq]
  | refill pos =>
    unfold Session.execute Session.refill
    rw [same.generator_eq]
    exact same.place pos _
  | tally lines =>
    refine (same.addScore lines).check.bind ?_
    intro reply reply' _ _ hreply
    refine .ok ⟨hreply.state, ?_⟩
    simp only [Reply.mapAnswer, hreply.answer_eq]

/-- Lists of commands, and each command on the way. -/
theorem InStep.executeAll [Store σ] (same : s.InStep lag strict t) (commands : List Command) :
    Follows lag (fun u v => u.InStep lag strict v ∧
      ExecutionsInStep lag strict (s.executions commands) (t.executions commands))
      (s.executeAll commands) (t.executeAll commands) := by
  induction commands generalizing s t with
  | nil => exact .ok ⟨same, .nil⟩
  | cons command rest ih =>
    rw [executeAll_cons, executeAll_cons]
    refine (same.execute command).bind ?_
    intro reply reply' hreply hreply' hstep
    refine (ih hstep.state).mono ?_
    rintro u v ⟨hend, hrest⟩
    rw [executions, executions, hreply, hreply']
    exact ⟨hend, .cons ⟨same, rfl⟩ hrest⟩

/-! ## Steps, calls and runs -/

theorem InStep.animated (same : s.InStep lag strict t) : s.animated.InStep lag strict t.animated :=
  { same with
    timeline := same.timeline.played
    grid := same.timeline.animate same.grid }

theorem InStep.step [Store σ] (same : s.InStep lag strict t) :
    Follows lag (fun u v => u.InStep lag strict v ∧
      ExecutionsInStep lag strict s.stepExecutions t.stepExecutions) s.step t.step := by
  rw [step_eq_executeAll, step_eq_executeAll, stepExecutions, stepExecutions,
    same.timeline.due_eq]
  exact same.animated.executeAll _

theorem InStep.advance (same : s.InStep lag strict t) :
    Follows lag (InStep lag strict) s.advance t.advance := by
  refine same.timeline.advance.bind ?_
  intro timeline timeline' _ _ htimeline
  exact .ok { same with timeline := htimeline }

/-- One call on games in step gives turns in step. -/
theorem InStep.perform [Store σ] (same : s.InStep lag strict t) (call : Call) :
    Follows lag (Turn.InStep lag strict) (s.perform call) (t.perform call) := by
  have hclick (pos : Pos) : Follows lag (Turn.InStep lag strict) (s.perform (.clickCell pos))
      (t.perform (.clickCell pos)) := by
    refine (same.clickCell pos).bind ?_
    intro reply reply' _ _ hreply
    refine .ok ⟨same, .nil, hreply.state, ?_⟩
    simp only [Reply.mapAnswer, hreply.answer_eq]
  have hupdate : Follows lag (Turn.InStep lag strict) (s.perform .update) (t.perform .update) := by
    unfold Session.perform update
    rw [bind_assoc, bind_assoc]
    refine same.step.bind ?_
    rintro stepped stepped' - - ⟨hstepped, hexecuted⟩
    refine hstepped.advance.bind ?_
    intro after after' _ _ hafter
    exact .ok ⟨same, hexecuted, hafter, rfl⟩
  cases call with
  | click x y surfaceSize =>
    have hcell : t.grid.cellAt x y surfaceSize = s.grid.cellAt x y surfaceSize := by
      rw [Grid.cellAt, same.grid.size_eq, Grid.cellAt]
    have hturn := hclick (s.grid.cellAt x y surfaceSize)
    nth_rewrite 2 [← hcell] at hturn
    exact hturn
  | clickCell pos => exact hclick pos
  | step =>
    refine same.step.bind ?_
    rintro after after' - - ⟨hafter, hexecuted⟩
    exact .ok ⟨same, hexecuted, hafter, rfl⟩
  | update => exact hupdate
  | frame surface =>
    rw [perform_frame, perform_frame]
    exact hupdate

/-- Games in step stay in step along every run, turn by turn. -/
theorem InStep.run [Store σ] (same : s.InStep lag strict t) (calls : List Call) :
    Follows lag (fun r r' => List.Forall₂ (Turn.InStep lag strict) r.1 r'.1 ∧
      r.2.InStep lag strict r'.2) (s.run calls) (t.run calls) :=
  follows_runAll (fun _ _ call hsame => hsame.perform call) (fun _ _ hturn => hturn.reply.state)
    same calls

end Session

end OrbPuzzle
