import OrbPuzzle.Proofs.Session.Progress

/-!
# Refused clicks

A click or a swap is refused if it names a cell that the board does not have. A swap adds seven
transitions and then exchanges two tiles, for which it looks up the cells once more. But it has
looked up both before it adds anything, so a refusal never leaves a swap half done.

A click names one cell, and a swap that follows from it takes the selected cell as the other. That
one lies on the board in every game that calls can lead to. So a refusal is about the cell that was
clicked (`clickCell_refused_iff`). A point of the screen always belongs to a cell, hence only
clicks on cells can be refused.
-/

namespace OrbPuzzle.Session

variable {σ : Type} {s : Session σ}

/-- Changing the scale of an orb outside the board is refused. -/
theorem resize_of_outside {pos : Pos} {source target : Single} {reply : Reply (Session σ) Unit}
    (hpos : ¬ pos.Within s.grid.size) (h : s.resize pos source target = .ok reply) :
    reply = ⟨s, .error ⟨pos, s.grid.size⟩⟩ := by
  obtain ⟨stop, -, h⟩ := bind_eq_ok_iff.mp h
  rw [Grid.tileAt_of_not_within hpos] at h
  exact (pure_eq_ok_iff.mp h).symm

/-- A swap with a cell outside the board is refused, whatever the clock says. The error names the
first such cell. -/
theorem swap_of_outside {first second : Pos}
    (h : ¬ first.Within s.grid.size ∨ ¬ second.Within s.grid.size) :
    s.swap first second =
      .ok ⟨s, .error ⟨if first.Within s.grid.size then second else first, s.grid.size⟩⟩ := by
  unfold swap
  by_cases hfirst : first.Within s.grid.size
  · obtain ⟨tile, htile⟩ := Grid.tileAt_eq_ok_of_within hfirst
    have hsecond : ¬ second.Within s.grid.size := h.resolve_left (not_not_intro hfirst)
    rw [htile, Grid.tileAt_of_not_within hsecond, if_pos hfirst]
  · rw [Grid.tileAt_of_not_within hfirst, if_neg hfirst]

/-- A swap of two cells of the board is not refused. -/
theorem swap_of_within {first second : Pos} {reply : Reply (Session σ) Unit}
    (hfirst : first.Within s.grid.size) (hsecond : second.Within s.grid.size)
    (h : s.swap first second = .ok reply) : reply.answer = .ok () := by
  obtain ⟨hout | hout, -⟩ | ⟨_, _, _, _, -, -, -, -, -, -, rfl⟩ := swap_eq_ok h
  · exact absurd hfirst hout
  · exact absurd hsecond hout
  · rfl

section Clicks

variable {pos : Pos} {reply : Reply (Session σ) ClickOutcome}

/-- While nothing is in progress, a click outside the board is refused. -/
theorem clickCell_of_outside
    (hselected : ∀ chosen, s.selected = some chosen → chosen.Within s.grid.size)
    (hidle : s.timeline.isIdle = true) (hpos : ¬ pos.Within s.grid.size)
    (h : s.clickCell pos = .ok reply) : reply = ⟨s, .error ⟨pos, s.grid.size⟩⟩ := by
  unfold clickCell at h
  simp only [hidle, Bool.not_true, Bool.false_eq_true, if_false] at h
  cases hchosen : s.selected with
  | none =>
    simp only [hchosen] at h
    obtain ⟨_, hresize, h⟩ := bind_eq_ok_iff.mp h
    obtain rfl := resize_of_outside hpos hresize
    exact (pure_eq_ok_iff.mp h).symm
  | some chosen =>
    have hwithin := hselected chosen hchosen
    have hne : chosen ≠ pos := fun heq => hpos (heq ▸ hwithin)
    simp only [hchosen, if_neg hne, swap_of_outside (.inr hpos), if_pos hwithin] at h
    exact (pure_eq_ok_iff.mp h).symm

/-- A click is refused if nothing is in progress and the board does not have the cell, and for no
other reason. -/
theorem clickCell_refused_iff
    (hselected : ∀ chosen, s.selected = some chosen → chosen.Within s.grid.size)
    (h : s.clickCell pos = .ok reply) :
    (∃ e, reply.answer = .error e) ↔ s.timeline.isIdle = true ∧ ¬ pos.Within s.grid.size := by
  constructor
  · rintro ⟨e, he⟩
    cases clickCell_eq_ok h with
    | missed idle error outside =>
      refine ⟨idle, ?_⟩
      rcases outside with hpos | ⟨chosen, hchosen, hout⟩
      · exact hpos
      · exact absurd (hselected chosen hchosen) hout
    | ignored | selected | cancelled | swapped => cases he
  · rintro ⟨hidle, hpos⟩
    obtain rfl := clickCell_of_outside hselected hidle hpos h
    exact ⟨_, rfl⟩

/-- A click at a point is never refused if the board has a cell. -/
theorem answer_of_click {x y surfaceSize : Single}
    (hselected : ∀ chosen, s.selected = some chosen → chosen.Within s.grid.size)
    (hsize : 0 < s.grid.size) (h : s.click x y surfaceSize = .ok reply) :
    ∃ outcome, reply.answer = .ok outcome := by
  cases hanswer : reply.answer with
  | error e =>
    have hout := ((clickCell_refused_iff hselected h).mp ⟨e, hanswer⟩).2
    exact absurd (Grid.within_cellAt hsize x y surfaceSize) hout
  | ok outcome => exact ⟨outcome, rfl⟩

end Clicks

/-- In every game that calls can lead to, a click on a cell that has a result is refused exactly if
nothing is in progress and the cell lies outside the board, and a swap exactly if one of its cells
does. A refusal names the cell and leaves the whole game as it was. On a board with a cell, a click
at a point is never refused, whatever the point and the side of the surface: numbers of any size and
sign, zeros, infinities, and what is not a number. It does have a result if there is room for three
phases on the clock. -/
theorem refused_iff_of_run [Store σ] {n : Nat} {color : Pos → Color} {rules : Rules} {host : Host σ}
    {grid : Grid} {generator : Generator} {calls : List Call} {turns : List (Turn σ)}
    (hgrid : Grid.tabulate n color = .ok grid)
    (h : (start rules host grid generator).run calls = .ok (turns, s)) :
    (∀ pos reply, s.clickCell pos = .ok reply →
      ((∃ e, reply.answer = .error e) ↔ s.timeline.isIdle = true ∧ ¬ pos.Within n) ∧
      ∀ e, reply.answer = .error e → e = ⟨pos, n⟩ ∧ reply.state = s) ∧
    (∀ a b,
      (¬ a.Within n ∨ ¬ b.Within n →
        s.swap a b = .ok ⟨s, .error ⟨if a.Within n then b else a, n⟩⟩) ∧
      (a.Within n → b.Within n → ∀ reply, s.swap a b = .ok reply → reply.answer = .ok ())) ∧
    (1 ≤ n → ∀ x y surfaceSize,
      (∀ reply, s.click x y surfaceSize = .ok reply → ∃ outcome, reply.answer = .ok outcome) ∧
      (0 < rules.phaseTicks → s.timeline.tick + 3 * rules.phaseTicks < Count.limit →
        ∃ t outcome, s.click x y surfaceSize = .ok ⟨t, .ok outcome⟩)) := by
  have hselected : ∀ chosen, s.selected = some chosen → chosen.Within s.grid.size :=
    (wellPaced_of_run h).selected_within
  have hrules : s.rules = rules := rules_of_run h
  have hsize : s.grid.size = n := (balanced_of_run h).size_eq.trans (Grid.tabulate_eq_ok hgrid).1
  subst hsize hrules
  refine ⟨?_, ?_, ?_⟩
  · intro pos reply hclick
    have hrefused := clickCell_refused_iff hselected hclick
    refine ⟨hrefused, fun e he => ?_⟩
    obtain ⟨hidle, hpos⟩ := hrefused.mp ⟨e, he⟩
    obtain rfl := clickCell_of_outside hselected hidle hpos hclick
    exact ⟨(Except.error.inj he).symm, rfl⟩
  · intro a b
    exact ⟨swap_of_outside, fun ha hb _ hswap => swap_of_within ha hb hswap⟩
  · intro hsize x y surfaceSize
    refine ⟨fun _ hclick => answer_of_click hselected hsize hclick, fun hphase hroom => ?_⟩
    obtain ⟨⟨t, answer⟩, hclick⟩ : HasResult (s.click x y surfaceSize) :=
      hasResult_clickCell hphase _ hroom
    obtain ⟨outcome, rfl⟩ := answer_of_click hselected hsize hclick
    exact ⟨t, outcome, hclick⟩

/-- In the short game, while an orb is selected: a click past the last column is refused, and so is
a swap with a cell past the last row. A click at no number on a surface of no size hits a cell. -/
theorem refused_iff_of_run_shortGame :
    Grid.tabulate 2 crossedColor = .ok crossedGrid ∧
      ∃ turns s, shortGame.run (shortCalls.take 4) = .ok (turns, s) ∧
        s.selected = some ⟨0, 0⟩ ∧ s.clickCell ⟨2, 0⟩ = .ok ⟨s, .error ⟨⟨2, 0⟩, 2⟩⟩ ∧
        s.swap ⟨0, 0⟩ ⟨0, 9⟩ = .ok ⟨s, .error ⟨⟨0, 9⟩, 2⟩⟩ ∧
        ∃ t outcome, s.click .nan .nan (.zero false) = .ok ⟨t, .ok outcome⟩ := by
  have hgrid : Grid.tabulate 2 crossedColor = .ok crossedGrid := rfl
  obtain ⟨⟨turns, s⟩, hrun, hend⟩ := exists_of_any_toOption
    (x := shortGame.run (shortCalls.take 4))
    (fun (_, s) => decide (s.selected = some ⟨0, 0⟩ ∧ s.timeline.isIdle = true ∧
      s.timeline.tick + 3 * 1 < Count.limit)) (by decide +kernel)
  obtain ⟨hselected, hidle, hroom⟩ := of_decide_eq_true hend
  obtain ⟨hclicks, hswaps, hpoints⟩ := refused_iff_of_run hgrid hrun
  refine ⟨hgrid, turns, s, hrun, hselected, ?_, ?_, ?_⟩
  · have hrules : s.rules.phaseTicks = 1 := congrArg Rules.phaseTicks (rules_of_run hrun)
    obtain ⟨⟨t, answer⟩, hclick⟩ : HasResult (s.clickCell ⟨2, 0⟩) :=
      hasResult_clickCell (by omega) _ (by omega)
    obtain ⟨hrefused, hnamed⟩ := hclicks ⟨2, 0⟩ _ hclick
    obtain ⟨e, rfl⟩ := hrefused.mpr ⟨hidle, by decide⟩
    obtain ⟨rfl, rfl⟩ := hnamed e rfl
    exact hclick
  · exact (hswaps ⟨0, 0⟩ ⟨0, 9⟩).1 (.inr (by decide))
  · exact (hpoints (by decide) .nan .nan (.zero false)).2 (by decide) hroom

end OrbPuzzle.Session
