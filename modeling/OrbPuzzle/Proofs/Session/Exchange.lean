import OrbPuzzle.Proofs.Session.Identity
import OrbPuzzle.Proofs.Session.Lock
import OrbPuzzle.Proofs.Session.Progress

/-!
# Swaps that make no line

The tiles of a swap change slots at the time of the click, and are shown on their way for three
phases. The courses in progress name the two tiles by their ids and no other tile. So while the
game coasts, two tiles have been exchanged and nothing else is different
(`exchanged_iterate_coast`). If the board with the tiles exchanged is settled, the check at the end
of the third phase finds nothing, and the game coasts through all of it (`coasts_of_settled`).

`exchange_of_settled` puts the two together, in every game that calls can lead to.
-/

namespace OrbPuzzle.Session

variable {σ : Type} {s t : Session σ} {a b : Pos} {exchanged : Grid}

/-- The tiles of two cells have been exchanged, wherever they are shown, and nothing else has
changed but the clock and the selection, which is given up. -/
structure Exchanged (s : Session σ) (a b : Pos) (t : Session σ) : Prop where
  first : ∃ tile moved, s.grid.tileAt a = .ok tile ∧ t.grid.tileAt b = .ok moved ∧
    moved.id = tile.id ∧ moved.color = tile.color
  second : ∃ tile moved, s.grid.tileAt b = .ok tile ∧ t.grid.tileAt a = .ok moved ∧
    moved.id = tile.id ∧ moved.color = tile.color
  others : ∀ pos tile, pos ≠ a → pos ≠ b → s.grid.tileAt pos = .ok tile →
    t.grid.tileAt pos = .ok tile
  selected_eq : t.selected = none
  score_eq : t.score = s.score
  highScore_eq : t.highScore = s.highScore
  host_eq : t.host = s.host
  generator_eq : t.generator = s.generator
  nextId_eq : t.grid.nextId = s.grid.nextId

/-- While a swap is shown, two tiles have been exchanged and nothing else is different. -/
theorem exchanged_iterate_coast {first second : Tile} {timeline : Timeline Command}
    (hids : s.grid.ids.Nodup) (hne : a ≠ b) (hswap : s.grid.swap a b = .ok exchanged)
    (hfirst : s.grid.tileAt a = .ok first) (hsecond : s.grid.tileAt b = .ok second)
    (hcourses : timeline.courses = swapCourses s.rules s.timeline.tick first second) (m : Nat) :
    Exchanged s a b (coast^[m] { s with timeline, grid := exchanged, selected := none }) := by
  have hcoasted := coasted_iterate { s with timeline, grid := exchanged, selected := none } m
  obtain ⟨hleft, hright⟩ := Grid.tileAt_swap hswap hne hfirst hsecond
  refine ⟨?_, ?_, ?_, hcoasted.selected_eq, hcoasted.score_eq, hcoasted.highScore_eq,
    hcoasted.host_eq, hcoasted.generator_eq, hcoasted.nextId_eq.trans (Grid.swap_eq_ok hswap).2⟩
  · obtain ⟨moved, hmoved, hface⟩ := hcoasted.sameFaces.tileAt_eq_ok hright
    exact ⟨first, moved, hfirst, hmoved, Prod.mk.inj hface⟩
  · obtain ⟨moved, hmoved, hface⟩ := hcoasted.sameFaces.tileAt_eq_ok hleft
    exact ⟨second, moved, hsecond, hmoved, Prod.mk.inj hface⟩
  · intro pos tile ha hb htile
    have hids' : exchanged.ids.Nodup := (Grid.ids_swap_perm hswap).nodup_iff.mpr hids
    have htile' := Grid.tileAt_swap_of_ne hswap ha hb htile
    refine hcoasted.tileAt_eq hids' pos tile htile' ?_
    -- a course that names this tile would be one of the swap, and ids are distinct
    intro c hc hid
    replace hc : c ∈ timeline.courses := hc
    rw [hcourses] at hc
    rcases tile_of_mem_swapCourses hc with hmoved | hmoved
    · exact ha (Grid.eq_of_id_eq hids htile hfirst (hid.symm.trans hmoved))
    · exact hb (Grid.eq_of_id_eq hids htile hsecond (hid.symm.trans hmoved))

/-- While a check is pending on a settled board a game coasts, also in the frame of the check. -/
theorem coasts_of_settled [Store σ] {due n : Nat} {turns : List (Turn σ)}
    (hpending : s.timeline.pending = [(due, .check)]) (hsettled : s.grid.uniformLines = [])
    (h : s.run (List.replicate n .update) = .ok (turns, t)) :
    t = coast^[n] s ∧ ∀ turn ∈ turns, ∃ m, turn.after = coast^[m] s := by
  have hpending : s.timeline.pending = [Command.check].map (due, ·) := hpending
  refine coasts_of_run ?_ h
  intro m _ u hu
  have hdue := due_iterate_coast hpending m
  by_cases hnow : due = s.timeline.tick + m
  · rw [if_pos hnow] at hdue
    refine eq_coast_of_settled hdue ?_ hu
    rw [(s.coasted_iterate m).sameFaces.uniformLines_eq, hsettled]
  · rw [if_neg hnow] at hdue
    exact eq_coast_of_due_eq_nil hdue hu

/-- In a game at rest in which a cell is held, a click on another cell of the board is a swap: the
tiles are exchanged, and what is in progress then is the swap and nothing else. -/
theorem swapped_of_clickCell {reply : Reply (Session σ) ClickOutcome}
    (hidle : s.timeline.isIdle = true) (hheld : s.selected = some a) (ha : a.Within s.grid.size)
    (hb : b.Within s.grid.size) (hne : a ≠ b) (hswap : s.grid.swap a b = .ok exchanged)
    (h : s.clickCell b = .ok reply) :
    ∃ first second timeline, s.grid.tileAt a = .ok first ∧ s.grid.tileAt b = .ok second ∧
      reply.state = { s with timeline, grid := exchanged, selected := none } ∧
      timeline.tick = s.timeline.tick ∧
      timeline.pending = [(s.timeline.tick + 3 * s.rules.phaseTicks, .check)] ∧
      timeline.courses = swapCourses s.rules s.timeline.tick first second ∧
      timeline.LastsUntil (s.timeline.tick + 3 * s.rules.phaseTicks) := by
  cases clickCell_eq_ok h with
  | ignored busy => cases hidle.symm.trans busy
  | missed idle error outside =>
    rcases outside with hout | ⟨chosen, hchosen, hout⟩
    · exact absurd hb hout
    · obtain rfl : a = chosen := Option.some.inj (hheld.symm.trans hchosen)
      exact absurd ha hout
  | selected idle free within silent tileAt course => cases hheld.symm.trans free
  | cancelled idle held silent tileAt course =>
    exact absurd (Option.some.inj (hheld.symm.trans held)) hne
  | @swapped idle chosen held added grid swap pending first second different tileAtChosen tileAt
      courses stop_le =>
    obtain rfl : a = chosen := Option.some.inj (hheld.symm.trans held)
    obtain rfl : exchanged = grid := Except.ok.inj (hswap.symm.trans swap)
    refine ⟨first, second, s.timeline.append added, tileAtChosen, tileAt, rfl, rfl, ?_, ?_, ?_⟩
    · rw [Timeline.pending_append, Timeline.pending_of_isIdle idle, pending, List.nil_append]
    · rw [Timeline.courses_append, Timeline.courses_of_isIdle idle, courses, List.nil_append]
    · exact Timeline.lastsUntil_append idle stop_le (pending ▸ List.mem_singleton_self _)
        (Nat.le_add_right _ _)

/-- A swap that makes no line exchanges two tiles and does nothing else. Let a cell be held in a
game at rest, and another cell of the board be clicked. If no line is uniform once the tiles of the
two cells are exchanged, then two frames after the third phase the game is at rest again, and from
the click on, after each single turn, the two tiles have been exchanged and nothing else is
different. -/
theorem exchange_of_settled [Store σ] {n : Nat} {color : Pos → Color} {rules : Rules}
    {host : Host σ} {grid : Grid} {generator : Generator} {calls : List Call}
    {turns : List (Turn σ)} (hgrid : Grid.tabulate n color = .ok grid)
    (hphase : 0 < rules.phaseTicks)
    (h : (start rules host grid generator).run calls = .ok (turns, s))
    (hidle : s.timeline.isIdle = true) (hheld : s.selected = some a) (hb : b.Within n)
    (hne : a ≠ b) (hswap : s.grid.swap a b = .ok exchanged) (hsettled : exchanged.isSettled = true)
    (hroom : s.run (.clickCell b :: List.replicate (3 * rules.phaseTicks + 2) .update) ≠
      .error .sumTooLarge) :
    ∃ moves t,
      s.run (.clickCell b :: List.replicate (3 * rules.phaseTicks + 2) .update) = .ok (moves, t) ∧
      t.timeline.isIdle = true ∧ Exchanged s a b t ∧
      ∀ turn ∈ moves, Exchanged s a b turn.after := by
  obtain rfl : s.rules = rules := rules_of_run h
  have hpaced : s.WellPaced :=
    (run_effect_induction (motive := fun _ _ => True) trivial (fun _ _ _ _ _ => trivial) h).1
  have hnumbered : Numbered n s := numbered_of_run (numbered_start hgrid _ host generator) h
  obtain ⟨moves, t, hrun⟩ := run_of_room hphase hroom
  -- the click
  obtain ⟨click, hclick, hrest⟩ := bind_eq_ok_iff.mp hrun
  obtain ⟨⟨frames, _⟩, hframes, hrest⟩ := bind_eq_ok_iff.mp hrest
  obtain ⟨rfl, rfl⟩ := Prod.mk.inj (pure_eq_ok_iff.mp hrest)
  obtain ⟨⟨swapped, answer⟩, hreply, hclick⟩ := bind_eq_ok_iff.mp hclick
  obtain rfl := pure_eq_ok_iff.mp hclick
  obtain ⟨first, second, timeline, hfirst, hsecond, hafter, htick, hpending, hcourses, hlasts⟩ :=
    swapped_of_clickCell hidle hheld (hpaced.selected_within a hheld) (hnumbered.size_eq ▸ hb) hne
      hswap hreply
  obtain rfl : swapped = _ := hafter
  -- the frames
  have hlines : exchanged.uniformLines = [] := List.isEmpty_iff.mp hsettled
  obtain ⟨rfl, hcoasts⟩ := coasts_of_settled (by exact hpending) (by exact hlines) hframes
  have hexchanged := exchanged_iterate_coast hnumbered.nodup hne hswap hfirst hsecond hcourses
  refine ⟨_, _, hrun, ?_, hexchanged _, ?_⟩
  · rw [isIdle_iterate_coast_iff hlasts]
    show _ ≤ timeline.tick + _
    omega
  · intro turn hturn
    rcases List.mem_cons.mp hturn with rfl | hturn
    · exact hexchanged 0
    · obtain ⟨m, hm⟩ := hcoasts turn hturn
      rw [hm]
      exact hexchanged m

/-- In the short game, a swap along the diagonal makes no line. -/
theorem exchange_of_settled_shortGame :
    ∃ turns s moves t,
      shortGame.run (.clickCell ⟨0, 1⟩ :: List.replicate 3 .update) = .ok (turns, s) ∧
      s.selected = some ⟨0, 1⟩ ∧
      s.run (.clickCell ⟨1, 0⟩ :: List.replicate 5 .update) = .ok (moves, t) ∧
      t.timeline.isIdle = true ∧ Exchanged s ⟨0, 1⟩ ⟨1, 0⟩ t := by
  have hgrid : Grid.tabulate 2 crossedColor = .ok crossedGrid := rfl
  obtain ⟨⟨turns, s⟩, hrun, hend⟩ := exists_of_any_toOption
    (x := shortGame.run (.clickCell ⟨0, 1⟩ :: List.replicate 3 .update))
    (fun (_, s) => decide (s.timeline.isIdle = true ∧ s.selected = some ⟨0, 1⟩) &&
      (s.grid.swap ⟨0, 1⟩ ⟨1, 0⟩).toOption.any Grid.isSettled &&
      (s.run (.clickCell ⟨1, 0⟩ :: List.replicate 5 .update)).toOption.isSome) (by decide +kernel)
  simp only [Bool.and_eq_true, decide_eq_true_eq] at hend
  obtain ⟨⟨⟨hidle, hheld⟩, hswap⟩, hresult⟩ := hend
  obtain ⟨exchanged, hswap, hsettled⟩ := exists_of_any_toOption _ hswap
  obtain ⟨moves, t, hmoves, hrests, hexchanged, -⟩ :=
    exchange_of_settled hgrid (by decide) hrun hidle hheld (by decide) (by decide) hswap hsettled
      (ne_error_of_isSome_toOption hresult)
  exact ⟨turns, s, moves, t, hrun, hheld, hmoves, hrests, hexchanged⟩

end OrbPuzzle.Session
