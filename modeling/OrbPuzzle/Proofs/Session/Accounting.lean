import OrbPuzzle.Proofs.Session.Turn

/-!
# The score sheet adds up

Four counters of a game are moved by different operations at different times: the lines that are
still to be tallied, the score, the ids given to tiles and the draws from the generator. Over a whole
run they keep in step. Every line that a detection has found has been tallied or still waits for it,
and for every tallied line one row or column of cells has been refilled.

* `Balanced`: the four equations, over the turns of a run.
* `balanced_of_effect`: no turn upsets them.
* `score_accounting`: they hold after every run.
-/

namespace OrbPuzzle.Session

variable {σ : Type}

/-- The lines found by all detections of a run. -/
def detectedIn [Store σ] (turns : List (Turn σ)) : Nat := (turns.map Turn.detected).sum

/-- The lines that a run has added to the score. -/
def talliedIn (turns : List (Turn σ)) : Nat := (turns.map Turn.tallied).sum

/-- The lines that are still to be added to the score. -/
def pendingLines (s : Session σ) : Nat := (s.timeline.pending.map (·.2.talliedLines)).sum

theorem detectedIn_append [Store σ] (turns : List (Turn σ)) (turn : Turn σ) :
    detectedIn (turns ++ [turn]) = detectedIn turns + turn.detected := by
  simp [detectedIn]

theorem talliedIn_append (turns : List (Turn σ)) (turn : Turn σ) :
    talliedIn (turns ++ [turn]) = talliedIn turns + turn.tallied := by
  simp [talliedIn]

/-! ## Lines that wait -/

theorem pendingLines_of_pending_eq {s : Session σ} {commands : List Command} {tick : Nat}
    (h : s.timeline.pending = commands.map (tick, ·)) :
    s.pendingLines = (commands.map Command.talliedLines).sum := by
  rw [pendingLines, h, List.map_map]
  rfl

/-- Refills wait for no line; the tally after them waits for all of them. -/
theorem sum_talliedLines_refills_tally (size : Nat) (lines : List Line) :
    ((Clearing.refills size lines ++ [Command.tally lines.length]).map
      Command.talliedLines).sum = lines.length := by
  have hrefills : ((Clearing.refills size lines).map Command.talliedLines).sum = 0 := by
    rw [List.sum_eq_zero_iff_forall_eq_nat]
    intro n hn
    simp only [Clearing.refills, List.mem_map] at hn
    obtain ⟨command, ⟨pos, -, rfl⟩, rfl⟩ := hn
    rfl
  rw [List.map_append, List.sum_append_nat, hrefills, Nat.zero_add]
  rfl

theorem sum_talliedLines_commands (size : Nat) (lines : List Line) :
    ((Clearing.commands size lines).map Command.talliedLines).sum = lines.length := by
  by_cases hnone : lines = []
  · rw [hnone]
    rfl
  · rw [Clearing.commands, if_neg hnone, sum_talliedLines_refills_tally]

/-! ## The equations -/

/-- The score sheet adds up, for a game that began with a given board and generator. -/
structure Balanced [Store σ] (grid : Grid) (generator : Generator) (turns : List (Turn σ))
    (s : Session σ) : Prop where
  size_eq : s.grid.size = grid.size
  /-- Every line that was found has been tallied or waits for it. -/
  detected_eq : detectedIn turns = talliedIn turns + s.pendingLines
  score_eq : s.score = min (talliedIn turns) Score.limit
  /-- One id for each cell of each tallied line. -/
  nextId_eq : s.grid.nextId = grid.nextId + grid.size * talliedIn turns
  /-- One draw for each cell of each tallied line. -/
  generator_eq : s.generator = (Color.randomList (grid.size * talliedIn turns) generator).2

theorem balanced_start [Store σ] (rules : Rules) (host : Host σ) (grid : Grid)
    (generator : Generator) : Balanced grid generator [] (start rules host grid generator) where
  size_eq := rfl
  detected_eq := rfl
  score_eq := rfl
  nextId_eq := rfl
  generator_eq := by
    show generator = (Color.randomList (grid.size * 0) generator).2
    rw [Nat.mul_zero, Color.randomList]

section Step

variable [Store σ] {grid : Grid} {generator : Generator} {turns : List (Turn σ)} {turn : Turn σ}

/-- A turn that tallies nothing keeps the balance if the lines it finds are made to wait. -/
theorem Balanced.append_of_sameSheet (h : Balanced grid generator turns turn.before)
    (same : turn.before.SameSheet turn.after) (htallied : turn.tallied = 0)
    (hdetected : turn.detected + turn.before.pendingLines = turn.after.pendingLines) :
    Balanced grid generator (turns ++ [turn]) turn.after := by
  have hsum : talliedIn (turns ++ [turn]) = talliedIn turns := by
    rw [talliedIn_append, htallied, Nat.add_zero]
  refine ⟨same.size_eq.trans h.size_eq, ?_, ?_, ?_, ?_⟩
  · have hfound := h.detected_eq
    rw [detectedIn_append, hsum]
    omega
  · rw [hsum, same.score_eq, h.score_eq]
  · rw [hsum, same.nextId_eq, h.nextId_eq]
  · rw [hsum, same.generator_eq, h.generator_eq]

/-- A turn that carries out nothing keeps the balance if as many lines wait as before. -/
theorem Balanced.append_of_executed_eq_nil (h : Balanced grid generator turns turn.before)
    (same : turn.before.SameSheet turn.after) (hexecuted : turn.executed = [])
    (hpending : turn.before.pendingLines = turn.after.pendingLines) :
    Balanced grid generator (turns ++ [turn]) turn.after := by
  have hdetected : turn.detected = 0 := by rw [Turn.detected, hexecuted]; rfl
  have htallied : turn.tallied = 0 := by rw [Turn.tallied, hexecuted]; rfl
  refine h.append_of_sameSheet same htallied ?_
  rw [hdetected, Nat.zero_add, hpending]

/-- No turn upsets the balance. -/
theorem balanced_of_effect (heffect : turn.Effect)
    (h : Balanced grid generator turns turn.before) :
    Balanced grid generator (turns ++ [turn]) turn.after := by
  cases heffect with
  | quiet same selected pending executed answer =>
    refine h.append_of_executed_eq_nil same.toSameSheet executed ?_
    rw [pendingLines, pendingLines, pending]
  | selects same held within restsBefore restsAfter executed answer =>
    refine h.append_of_executed_eq_nil same.toSameSheet executed ?_
    rw [pendingLines, pendingLines, restsBefore, restsAfter]
  | cancels same free restsBefore restsAfter executed answer =>
    refine h.append_of_executed_eq_nil same.toSameSheet executed ?_
    rw [pendingLines, pendingLines, restsBefore, restsAfter]
  | swaps tick same free restsBefore pending executed answer =>
    -- the check that is now pending waits for no line yet
    refine h.append_of_executed_eq_nil same executed ?_
    rw [pendingLines, pendingLines, restsBefore, pending]
    rfl
  | checks tick next same selected pendingBefore pendingAfter detected tallied answer =>
    refine h.append_of_sameSheet same.toSameSheet tallied ?_
    have hbefore : turn.before.pendingLines = 0 := by
      rw [pendingLines, pendingBefore]
      rfl
    rw [pendingLines_of_pending_eq pendingAfter, sum_talliedLines_commands, detected, hbefore,
      Nat.add_zero]
  | clears tick next lines lines_eq some_lines rules_eq size_eq nextId_eq score_eq generator_eq
      selected pendingBefore pendingAfter detected tallied answer =>
    have hsum : talliedIn (turns ++ [turn]) = talliedIn turns + lines.length := by
      rw [talliedIn_append, tallied]
    have hbefore : turn.before.pendingLines = lines.length := by
      rw [pendingLines_of_pending_eq pendingBefore, sum_talliedLines_refills_tally]
    have hafter : turn.after.pendingLines = turn.detected := by
      rw [pendingLines_of_pending_eq pendingAfter, sum_talliedLines_commands, detected]
    refine ⟨size_eq.trans h.size_eq, ?_, ?_, ?_, ?_⟩
    · have hfound := h.detected_eq
      rw [detectedIn_append, hsum, hafter]
      omega
    · have hscore := h.score_eq
      rw [score_eq, hsum]
      omega
    · rw [nextId_eq, h.nextId_eq, h.size_eq, hsum, Nat.mul_add, Nat.add_assoc]
    · rw [generator_eq, h.generator_eq, h.size_eq, hsum, Nat.mul_add, generator_randomList_add]

end Step

/-! ## Every run -/

section Runs

variable [Store σ] {rules : Rules} {host : Host σ} {grid : Grid} {generator : Generator}
  {calls : List Call} {turns : List (Turn σ)} {s : Session σ} {n : Nat} {color : Pos → Color}

theorem balanced_of_run (h : (start rules host grid generator).run calls = .ok (turns, s)) :
    Balanced grid generator turns s :=
  (run_effect_induction (balanced_start rules host grid generator)
    (fun _ _ _ heffect hbefore => balanced_of_effect heffect hbefore) h).2

/-- After every run, each line that was found has been tallied or waits for it. The score is the number
of tallied lines, up to the largest score; and for each tallied line, as many ids and as many draws
have been spent as it has cells. -/
theorem score_accounting (hgrid : Grid.tabulate n color = .ok grid)
    (h : (start rules host grid generator).run calls = .ok (turns, s)) :
    detectedIn turns = talliedIn turns + s.pendingLines ∧
      s.score = min (talliedIn turns) Score.limit ∧
      s.grid.nextId = n * n + n * talliedIn turns ∧
      s.generator = (Color.randomList (n * talliedIn turns) generator).2 ∧
      (talliedIn turns ≤ Score.limit → s.grid.nextId = n * n + n * s.score) := by
  have hbalanced := balanced_of_run h
  obtain ⟨hsize, hfirst⟩ := Grid.tabulate_eq_ok hgrid
  have hnextId : s.grid.nextId = n * n + n * talliedIn turns := by
    rw [hbalanced.nextId_eq, hsize, hfirst]
  have hscore := hbalanced.score_eq
  refine ⟨hbalanced.detected_eq, hscore, hnextId, ?_, ?_⟩
  · rw [hbalanced.generator_eq, hsize]
  · intro hle
    rw [hnextId, hscore, Nat.min_eq_left hle]

/-- In the short game one line is found and scored, and two cells are refilled. -/
theorem score_accounting_shortGame :
    Grid.tabulate 2 crossedColor = .ok crossedGrid ∧
      ∃ turns s, shortGame.run shortCalls = .ok (turns, s) ∧ detectedIn turns = 1 ∧
        s.score = 1 ∧ s.grid.nextId = 2 * 2 + 2 * s.score := by
  have hgrid : Grid.tabulate 2 crossedColor = .ok crossedGrid := rfl
  obtain ⟨⟨turns, s⟩, hrun, hend⟩ := exists_of_any_toOption (x := shortGame.run shortCalls)
    (fun r => decide (detectedIn r.1 = 1 ∧ talliedIn r.1 = 1)) (by decide +kernel)
  obtain ⟨hdetected, htallied⟩ := of_decide_eq_true hend
  obtain ⟨-, hscore, -, -, hnextId⟩ := score_accounting hgrid hrun
  rw [show talliedIn turns = 1 from htallied] at hscore hnextId
  exact ⟨hgrid, turns, s, hrun, hdetected, hscore, hnextId (by decide)⟩

end Runs

end OrbPuzzle.Session
