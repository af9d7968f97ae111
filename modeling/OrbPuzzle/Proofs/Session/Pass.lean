import Mathlib.Logic.ExistsUnique
import OrbPuzzle.Proofs.Session.Turn

/-!
# One pass at a time

What the passes of a game say about every game that a run can lead to.

* `one_pass_in_flight`: the pending commands belong to exactly one pass; a held selection is of a cell
  of the board, on which no slot has changed since it was made; and no command that a step carries out
  answers with an error.
* `isSettled_of_isIdle`: when the animations have come to an end, no line is uniform, once the board
  was settled at the start or two orbs have been swapped.
-/

namespace OrbPuzzle.Session

variable {σ : Type}

/-! ## The pass of a game -/

/-- The pass that pending commands are part of: the first of them tells. -/
def Pass.ofPending : List (Nat × Command) → Pass
  | [] => .none
  | (_, .check) :: _ => .check
  | _ :: _ => .clearing

/-- A game is in no other pass than the one its pending commands tell. -/
theorem InPass.eq_ofPending {s : Session σ} {pass : Pass} (h : s.InPass pass) :
    pass = .ofPending s.timeline.pending := by
  cases pass with
  | none =>
    rw [show s.timeline.pending = [] from h]
    rfl
  | check =>
    obtain ⟨tick, -, hpending⟩ := h
    rw [hpending]
    rfl
  | clearing =>
    obtain ⟨-, tick, -, hpending⟩ := h
    rw [hpending, Clearing.refills]
    -- the first command is a refill, or the tally if there is no cell to refill
    cases s.grid.uniformLines.flatMap fun line => line.cells s.grid.size with
    | nil => rfl
    | cons pos rest => rfl

theorem WellPaced.existsUnique_pass {s : Session σ} (hs : s.WellPaced) :
    ∃! pass, s.InPass pass := by
  obtain ⟨pass, hpass⟩ := hs.inPass
  refine ⟨pass, hpass, ?_⟩
  intro other hother
  rw [hother.eq_ofPending, hpass.eq_ofPending]

/-! ## No error inside a step -/

/-- A refill that is due is of a cell of the board. -/
theorem WellPaced.within_of_mem_due {s : Session σ} (hs : s.WellPaced) {pos : Pos}
    (h : .refill pos ∈ s.timeline.due) : pos.Within s.grid.size := by
  obtain ⟨pass, hpass⟩ := hs.inPass
  rw [Timeline.due_eq_pending] at h
  obtain ⟨⟨tick, command⟩, hmem, hcommand⟩ := List.mem_map.mp h
  obtain rfl : command = .refill pos := hcommand
  have hpending := (List.mem_filter.mp hmem).1
  cases pass with
  | none =>
    rw [show s.timeline.pending = [] from hpass] at hpending
    cases hpending
  | check =>
    obtain ⟨_, -, heq⟩ := hpass
    rw [heq] at hpending
    simp at hpending
  | clearing =>
    obtain ⟨-, _, -, heq⟩ := hpass
    rw [heq, Clearing.refills] at hpending
    simp only [List.map_append, List.map_map, List.mem_append, List.mem_map, Function.comp_apply,
      List.map_cons, List.map_nil, List.mem_singleton, Prod.mk.injEq, Command.refill.injEq,
      reduceCtorEq, and_false, or_false] at hpending
    obtain ⟨cell, hcell, -, rfl⟩ := hpending
    obtain ⟨line, hline, hcell⟩ := List.mem_flatMap.mp hcell
    exact Grid.within_of_mem_uniformLines hline hcell

/-- No command that a step carries out answers with an error. -/
theorem WellPaced.answer_of_mem_stepExecutions [Store σ] {s : Session σ} (hs : s.WellPaced) :
    ∀ execution ∈ s.stepExecutions, ∀ reply,
      execution.1.execute execution.2 = .ok reply → reply.answer = .ok () := by
  refine answer_of_mem_executions ?_
  intro pos hpos
  rw [s.sameGame_animated.size_eq]
  exact hs.within_of_mem_due hpos

/-! ## The selection -/

/-- The cell was selected by a turn, on a board with the given faces. Since then it is held and the
faces have stayed. -/
def HeldSince (turns : List (Turn σ)) (pos : Pos) (faces : Array (TileId × Color)) : Prop :=
  ∃ earlier turn later, turns = earlier ++ turn :: later ∧
    turn.reply.answer = .ok (some (.selected pos)) ∧ turn.before.grid.faces = faces ∧
    ∀ held ∈ turn :: later, held.after.selected = some pos ∧ held.after.grid.faces = faces

theorem HeldSince.append {turns : List (Turn σ)} {turn : Turn σ} {pos : Pos}
    {faces : Array (TileId × Color)} (h : HeldSince turns pos faces)
    (hselected : turn.after.selected = some pos) (hfaces : turn.after.grid.faces = faces) :
    HeldSince (turns ++ [turn]) pos faces := by
  obtain ⟨earlier, first, later, rfl, hanswer, hbefore, hheld⟩ := h
  refine ⟨earlier, first, later ++ [turn], by simp, hanswer, hbefore, ?_⟩
  intro held hmem
  rw [← List.cons_append, List.mem_append, List.mem_singleton] at hmem
  rcases hmem with hmem | rfl
  · exact hheld held hmem
  · exact ⟨hselected, hfaces⟩

/-- A turn after which a cell is held has just selected it, or has changed no face of the board. -/
theorem heldSince_of_effect [Store σ] {turns : List (Turn σ)} {turn : Turn σ}
    (hpaced : turn.before.WellPaced) (heffect : turn.Effect)
    (hbefore : ∀ pos, turn.before.selected = some pos →
      HeldSince turns pos turn.before.grid.faces) (pos : Pos)
    (hafter : turn.after.selected = some pos) :
    HeldSince (turns ++ [turn]) pos turn.after.grid.faces := by
  cases heffect with
  | quiet same selected pending executed answer =>
    rw [same.faces_eq]
    exact (hbefore pos (selected.symm.trans hafter)).append hafter same.faces_eq
  | selects same held within restsBefore restsAfter executed answer =>
    obtain rfl := Option.some.inj (held.symm.trans hafter)
    refine ⟨turns, turn, [], rfl, answer, same.faces_eq.symm, ?_⟩
    intro held hmem
    rw [List.mem_singleton.mp hmem]
    exact ⟨hafter, rfl⟩
  | cancels same free restsBefore restsAfter executed answer =>
    rw [free] at hafter
    cases hafter
  | swaps tick same free restsBefore pending executed answer =>
    rw [free] at hafter
    cases hafter
  | checks tick next same selected pendingBefore pendingAfter detected tallied answer =>
    rw [same.faces_eq]
    exact (hbefore pos (selected.symm.trans hafter)).append hafter same.faces_eq
  | clears tick next lines lines_eq some_lines rules_eq size_eq nextId_eq score_eq generator_eq
      selected pendingBefore pendingAfter detected tallied answer =>
    -- the faces did change, but a clearing was pending, so nothing was selected
    have hfree := hpaced.selected_ne_some (by simp [pendingBefore]) pos
    exact absurd (selected.symm.trans hafter) hfree

/-! ## Settling -/

/-- A check that leaves nothing pending has found no uniform line. -/
theorem isSettled_of_commands {g : Grid} {tick : Nat}
    (h : (Clearing.commands g.size g.uniformLines).map (tick, ·) = []) : g.isSettled = true := by
  have hnone : Clearing.commands g.size g.uniformLines = [] := List.map_eq_nil_iff.mp h
  by_cases hlines : g.uniformLines = []
  · rw [Grid.isSettled, hlines, List.isEmpty_nil]
  · rw [Clearing.commands, if_neg hlines] at hnone
    simp at hnone

/-- If a game is settled whenever it comes to rest, under a condition that a swap fulfils, then a turn
keeps it so. -/
theorem isSettled_of_effect [Store σ] {turn : Turn σ} {condition : Prop} (heffect : turn.Effect)
    (hbefore : condition → turn.before.timeline.pending = [] → turn.before.grid.isSettled = true)
    (hcondition : condition ∨ turn.Swaps) (hrests : turn.after.timeline.pending = []) :
    turn.after.grid.isSettled = true := by
  -- a turn that does not touch the faces hands the condition and the settled board on
  have hkept (same : turn.before.SameGame turn.after) (hswaps : ¬ turn.Swaps)
      (hpending : turn.before.timeline.pending = []) : turn.after.grid.isSettled = true := by
    rw [Grid.isSettled, same.sameFaces.uniformLines_eq]
    exact hbefore (hcondition.resolve_right hswaps) hpending
  cases heffect with
  | quiet same selected pending executed answer =>
    exact hkept same answer (pending.symm.trans hrests)
  | selects same held within restsBefore restsAfter executed answer =>
    refine hkept same ?_ restsBefore
    rintro ⟨first, second, hanswer⟩
    cases answer.symm.trans hanswer
  | cancels same free restsBefore restsAfter executed answer =>
    refine hkept same ?_ restsBefore
    rintro ⟨first, second, hanswer⟩
    cases answer.symm.trans hanswer
  | swaps tick same free restsBefore pending executed answer =>
    cases pending.symm.trans hrests
  | checks tick next same selected pendingBefore pendingAfter detected tallied answer =>
    exact isSettled_of_commands (pendingAfter.symm.trans hrests)
  | clears tick next lines lines_eq some_lines rules_eq size_eq nextId_eq score_eq generator_eq
      selected pendingBefore pendingAfter detected tallied answer =>
    exact isSettled_of_commands (pendingAfter.symm.trans hrests)

/-! ## Every run -/

section Runs

variable [Store σ] {rules : Rules} {host : Host σ} {grid : Grid} {generator : Generator}
  {calls : List Call} {turns : List (Turn σ)} {s : Session σ}

/-- After every run the game is in exactly one pass; a cell that is held lies on the board, nothing is
pending then, and no slot has changed since the cell was selected; and no command that the next step
carries out answers with an error. -/
theorem one_pass_in_flight
    (h : (start rules host grid generator).run calls = .ok (turns, s)) :
    (∃! pass, s.InPass pass) ∧
      (∀ pos, s.selected = some pos →
        pos.Within s.grid.size ∧ s.timeline.pending = [] ∧ HeldSince turns pos s.grid.faces) ∧
      (∀ execution ∈ s.stepExecutions, ∀ reply,
        execution.1.execute execution.2 = .ok reply → reply.answer = .ok ()) ∧
      ∀ stepped, s.step = .ok stepped → ∀ execution ∈ s.stepExecutions,
        ∃ after, execution.1.execute execution.2 = .ok ⟨after, .ok ()⟩ := by
  obtain ⟨hpaced, hheld⟩ := run_effect_induction
    (motive := fun turns s => ∀ pos, s.selected = some pos → HeldSince turns pos s.grid.faces)
    (fun pos hpos => nomatch hpos)
    (fun turns turn hpaced heffect hbefore => heldSince_of_effect hpaced heffect hbefore) h
  have hanswer := hpaced.answer_of_mem_stepExecutions
  refine ⟨hpaced.existsUnique_pass, ?_, hanswer, ?_⟩
  · intro pos hpos
    exact ⟨hpaced.selected_within pos hpos, hpaced.selected_rests pos hpos, hheld pos hpos⟩
  · intro stepped hstep execution hexecution
    rw [step_eq_executeAll] at hstep
    obtain ⟨⟨after, answer⟩, hreply⟩ := execute_of_mem_executions hstep execution hexecution
    obtain rfl : answer = .ok () := hanswer execution hexecution _ hreply
    exact ⟨after, hreply⟩

/-- In the short game, first a selection is held, and later the second column is being cleared. -/
theorem one_pass_in_flight_shortGame :
    (∃ turns s, shortGame.run (shortCalls.take 4) = .ok (turns, s) ∧
      s.selected = some ⟨0, 0⟩ ∧ s.timeline.pending = [] ∧ HeldSince turns ⟨0, 0⟩ s.grid.faces) ∧
    ∃ turns s, shortGame.run (shortCalls.take 10) = .ok (turns, s) ∧
      s.timeline.pending = [(8, .refill ⟨1, 0⟩), (8, .refill ⟨1, 1⟩), (8, .tally 1)] ∧
      ∃! pass, s.InPass pass := by
  constructor
  · obtain ⟨⟨turns, s⟩, hrun, hselected⟩ := exists_of_any_toOption
      (x := shortGame.run (shortCalls.take 4)) (fun r => decide (r.2.selected = some ⟨0, 0⟩))
      (by decide +kernel)
    have hselected : s.selected = some ⟨0, 0⟩ := of_decide_eq_true hselected
    obtain ⟨-, hrests, hheld⟩ := (one_pass_in_flight hrun).2.1 ⟨0, 0⟩ hselected
    exact ⟨turns, s, hrun, hselected, hrests, hheld⟩
  · obtain ⟨⟨turns, s⟩, hrun, hpending⟩ := exists_of_any_toOption
      (x := shortGame.run (shortCalls.take 10))
      (fun r => decide (r.2.timeline.pending =
        [(8, .refill ⟨1, 0⟩), (8, .refill ⟨1, 1⟩), (8, .tally 1)])) (by decide +kernel)
    exact ⟨turns, s, hrun, of_decide_eq_true hpending, (one_pass_in_flight hrun).1⟩

/-- When nothing is pending, the board is settled, if it was so at the start or two orbs have been
swapped since. -/
theorem isSettled_of_pending_eq_nil
    (h : (start rules host grid generator).run calls = .ok (turns, s)) :
    (grid.isSettled = true ∨ ∃ turn ∈ turns, turn.Swaps) → s.timeline.pending = [] →
      s.grid.isSettled = true := by
  refine (run_effect_induction (motive := fun turns s =>
    (grid.isSettled = true ∨ ∃ turn ∈ turns, turn.Swaps) → s.timeline.pending = [] →
      s.grid.isSettled = true) ?_ ?_ h).2
  · rintro (hgrid | ⟨turn, hturn, -⟩) -
    · exact hgrid
    · cases hturn
  · intro turns turn _ heffect hbefore hcondition
    refine isSettled_of_effect heffect hbefore ?_
    simp only [List.mem_append, List.mem_singleton] at hcondition
    rcases hcondition with hgrid | ⟨swap, hmem | rfl, hswap⟩
    · exact .inl (.inl hgrid)
    · exact .inl (.inr ⟨swap, hmem, hswap⟩)
    · exact .inr hswap

/-- Cascades run to their end: when nothing is in progress, no row and no column is uniform, if the
board was settled at the start or two orbs have been swapped since. -/
theorem isSettled_of_isIdle
    (h : (start rules host grid generator).run calls = .ok (turns, s))
    (hidle : s.timeline.isIdle = true)
    (hfirst : grid.isSettled = true ∨ ∃ turn ∈ turns, turn.Swaps) :
    s.grid.isSettled = true ∧
      ∀ line ∈ Line.all s.grid.size, s.grid.isUniform line = false := by
  have hsettled := isSettled_of_pending_eq_nil h hfirst (Timeline.pending_of_isIdle hidle)
  exact ⟨hsettled, Grid.isSettled_iff.mp hsettled⟩

/-- The short game comes to rest after a swap and a clearing. -/
theorem isSettled_of_isIdle_shortGame :
    ∃ turns s, shortGame.run shortCalls = .ok (turns, s) ∧ s.timeline.isIdle = true ∧
      (∃ turn ∈ turns, turn.Swaps) ∧ s.grid.isSettled = true := by
  obtain ⟨⟨turns, s⟩, hrun, hend⟩ := exists_of_any_toOption (x := shortGame.run shortCalls)
    (fun r => decide (r.2.timeline.isIdle = true ∧ ∃ turn ∈ r.1, turn.Swaps)) (by decide +kernel)
  obtain ⟨hidle, hswaps⟩ := of_decide_eq_true hend
  exact ⟨turns, s, hrun, hidle, hswaps, (isSettled_of_isIdle hrun hidle (.inr hswaps)).1⟩

end Runs

end OrbPuzzle.Session
