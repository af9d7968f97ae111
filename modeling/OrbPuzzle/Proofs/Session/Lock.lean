import OrbPuzzle.Proofs.Session.Operations
import OrbPuzzle.Proofs.Session.Refilling

/-!
# How long a click locks the game

A game ignores clicks until it is at rest again. After a selection, or when one is given up, this
takes one phase. After a swap it takes three phases to the first check. A check that finds lines
clears them, and two phases later the board is checked again, so the checks after a swap come at
fixed ticks (`detectionTick`) for as long as each of them finds a line. What was started last is
still there at the tick at which it ends, and is dropped when the next one is played: hence the two
frames more in `lock_of_click`.

The cascade after a swap is followed frame by frame. Between two checks the game coasts
(`Awaits.coast`); at the tick of a check it waits for the next one or for none (`Awaits.next`).
`Cascade` says how far the cascade has come, and `cascaded_of_run` that every run of frames follows
it.
-/

namespace OrbPuzzle

theorem Grid.SameFaces.lineCells_eq {g h : Grid} (same : g.SameFaces h) :
    h.lineCells = g.lineCells := by
  rw [Grid.lineCells, Grid.lineCells, same.uniformLines_eq, same.size_eq]

namespace Session

variable {σ : Type}

/-! ## Detections -/

/-- The tick at which carrying out a command looks for lines, and how many it finds. A refill does
not look for any. -/
def detection? [Store σ] : Session σ × Command → Option (Nat × Nat)
  | (_, .refill _) => none
  | (s, command) => some (s.timeline.tick, detectedLines (s, command))

/-- The detections of a turn, in order: the tick of each, and how many lines it has found. -/
def Turn.detections [Store σ] (turn : Turn σ) : List (Nat × Nat) :=
  turn.executed.filterMap detection?

/-- The detections of some turns, in order. -/
def detectionsIn [Store σ] (turns : List (Turn σ)) : List (Nat × Nat) :=
  turns.flatMap Turn.detections

/-- The tick of a check after a swap, counted from zero: the first one comes after three phases, and
each of the others two phases after the one before. -/
def detectionTick (rules : Rules) (swapped k : Nat) : Nat :=
  swapped + 3 * rules.phaseTicks + 2 * rules.phaseTicks * k

theorem detectionTick_succ (rules : Rules) (swapped k : Nat) :
    detectionTick rules swapped (k + 1) =
      detectionTick rules swapped k + 2 * rules.phaseTicks := by
  rw [detectionTick, Nat.mul_succ, ← Nat.add_assoc]
  rfl

theorem detectionTick_le {rules : Rules} {swapped k m : Nat} (h : k ≤ m) :
    detectionTick rules swapped k ≤ detectionTick rules swapped m :=
  Nat.add_le_add_left (Nat.mul_le_mul_left _ h) _

/-- The lines found can be read off the detections. -/
theorem map_snd_detections (rules : Rules) (swapped : Nat) (lines : List Nat) :
    (lines.mapIdx fun k found => (detectionTick rules swapped k, found)).map Prod.snd = lines := by
  apply List.ext_getElem?
  intro i
  cases hi : lines[i]? <;> simp [hi]

theorem filterMap_detection?_refills [Store σ] (s : Session σ) (cells : List Pos) :
    (s.executions (cells.map .refill)).filterMap detection? = [] := by
  rw [List.filterMap_eq_nil_iff]
  rintro ⟨t, command⟩ hexecution
  obtain ⟨pos, -, rfl⟩ := List.mem_map.mp (mem_of_mem_executions hexecution)
  rfl

/-! ## One frame of a cascade -/

/-- The game waits for a tick at which the board is checked: what is pending is that check, or the
end of a clearing, which ends in one. -/
def Awaits (s : Session σ) (due : Nat) : Prop :=
  s.timeline.pending = [(due, .check)] ∨
    s.timeline.pending =
      (s.grid.lineCells.map Command.refill ++ [Command.tally s.grid.uniformLines.length]).map
        (due, ·)

/-- A check that finds lines, where nothing else is pending or lasts any longer, leaves a game that
waits for the next check. -/
theorem awaits_of_check {s : Session σ} {found : Reply (Session σ) Nat} {tick : Nat}
    (hlines : s.grid.uniformLines ≠ []) (hrests : s.timeline.pending = [])
    (hended : ∀ u ∈ s.timeline.active, u.stop ≤ s.timeline.tick) (hcheck : s.check = .ok found)
    (htick : tick ≤ s.timeline.tick + 1) :
    Awaits { found.state with timeline := { found.state.timeline with tick } }
        (s.timeline.tick + 2 * s.rules.phaseTicks) ∧
      Timeline.LastsUntil { found.state.timeline with tick }
        (s.timeline.tick + 2 * s.rules.phaseTicks) := by
  have hlength : 1 ≤ s.grid.uniformLines.length := List.length_pos_iff.mpr hlines
  obtain ⟨-, -, added, hstate, hadded, -⟩ := check_eq_ok hcheck
  have hpending : found.state.timeline.pending =
      (s.grid.lineCells.map Command.refill ++ [Command.tally s.grid.uniformLines.length]).map
        (s.timeline.tick + 2 * s.rules.phaseTicks, ·) := by
    rw [hstate, Timeline.pending_append, hrests, hadded, Clearing.commands_of_le hlength,
      List.nil_append]
    rfl
  have htally : (s.timeline.tick + 2 * s.rules.phaseTicks,
      .tally s.grid.uniformLines.length) ∈ found.state.timeline.pending := by
    rw [hpending]
    simp
  constructor
  · rw [hstate] at hpending ⊢
    exact .inr hpending
  · refine Timeline.lastsUntil_of_mem_pending ?_ htally ?_
    · intro u hu
      rcases stop_le_of_check hcheck u hu with hold | hnew
      · exact Nat.le_trans (hended u hold) (Nat.le_add_right _ _)
      · exact hnew
    · show tick ≤ s.timeline.tick + 2 * s.rules.phaseTicks + 1
      omega

section Frame

variable [Store σ] {s t : Session σ} {due : Nat}

/-- When no command is due, a frame detects nothing. -/
theorem detections_of_due_eq_nil (hdue : s.timeline.due = []) :
    (updateTurn s t).detections = [] := by
  show s.stepExecutions.filterMap detection? = []
  rw [stepExecutions, hdue, executions, List.filterMap_nil]

/-- While it waits for a check, a game coasts. -/
theorem Awaits.coast (h : s.Awaits due) (hlt : s.timeline.tick < due) (hupdate : s.update = .ok t) :
    t = s.coast ∧ (updateTurn s t).detections = [] ∧ t.Awaits due := by
  obtain ⟨commands, hpending⟩ : ∃ commands : List Command,
      s.timeline.pending = commands.map (due, ·) := by
    rcases h with h | h
    · exact ⟨[.check], h⟩
    · exact ⟨_, h⟩
  have hne : due ≠ s.timeline.tick := by omega
  have hdue : s.timeline.due = [] := by
    rw [Timeline.due_of_pending_eq hpending, if_neg hne]
  have hplayed : s.timeline.played.pending = s.timeline.pending := by
    rw [Timeline.pending_played_of_pending_eq hpending (Nat.le_of_lt hlt), if_neg hne]
  obtain rfl := eq_coast_of_due_eq_nil hdue hupdate
  refine ⟨rfl, detections_of_due_eq_nil hdue, ?_⟩
  have same : s.grid.SameFaces s.coast.grid := s.sameGame_animated.sameFaces
  unfold Awaits
  rw [same.lineCells_eq, same.uniformLines_eq]
  exact h.imp hplayed.trans hplayed.trans

/-- At the tick that a game waits for, one check is made, on the board as it is after the refills.
-/
theorem Awaits.detect (h : s.Awaits due) (htick : s.timeline.tick = due)
    (hupdate : s.update = .ok t) :
    ∃ (checked : Session σ) (found : Reply (Session σ) Nat),
      checked.timeline = s.timeline.played ∧ checked.rules = s.rules ∧ checked.check = .ok found ∧
      t = { found.state with timeline := { found.state.timeline with tick := due + 1 } } ∧
      (updateTurn s t).detections = [(due, checked.grid.uniformLines.length)] ∧
      s.timeline.played.pending = [] := by
  subst htick
  obtain ⟨stepped, hstep, rfl⟩ := update_eq_ok hupdate
  rcases h with hpending | hpending
  · have hpending : s.timeline.pending = [Command.check].map (s.timeline.tick, ·) := hpending
    have hdue := Timeline.due_of_pending_eq hpending
    have hplayed := Timeline.pending_played_of_pending_eq hpending (Nat.le_refl _)
    rw [if_pos rfl] at hdue hplayed
    obtain ⟨hexecuted, found, hfound, rfl⟩ := step_of_due_check hdue hstep
    refine ⟨s.animated, found, rfl, rfl, hfound, rfl, ?_, hplayed⟩
    show s.stepExecutions.filterMap detection? = _
    rw [hexecuted]
    rfl
  · have hdue := Timeline.due_of_pending_eq hpending
    have hplayed := Timeline.pending_played_of_pending_eq hpending (Nat.le_refl _)
    rw [if_pos rfl] at hdue hplayed
    obtain ⟨refilled, hrefilled, hexecuted, found, hfound, rfl⟩ := step_of_due_tally hdue hstep
    have hcells : ∀ pos ∈ s.grid.lineCells, pos.Within s.animated.grid.size := by
      intro pos hpos
      rw [s.sameGame_animated.size_eq]
      exact Grid.within_of_mem_lineCells hpos
    obtain ⟨grid, generator, hrefilledEq, -⟩ := executeAll_refills hcells hrefilled
    obtain ⟨highScore, host, hscored⟩ := refilled.addScore_eq s.grid.uniformLines.length
    refine ⟨_, found, ?_, ?_, hfound, rfl, ?_, hplayed⟩
    · rw [hscored, hrefilledEq]
      rfl
    · rw [hscored, hrefilledEq]
      rfl
    · show s.stepExecutions.filterMap detection? = _
      rw [hexecuted, List.filterMap_append, filterMap_detection?_refills, hrefilledEq]
      rfl

/-- After a check that has found lines, the game waits for the next one two phases later. After one
that has found none, nothing is pending any more. -/
theorem Awaits.next (h : s.Awaits due) (hlasts : s.timeline.LastsUntil due)
    (htick : s.timeline.tick = due) (hupdate : s.update = .ok t) :
    t.rules = s.rules ∧ t.timeline.tick = due + 1 ∧
      ∃ lines, (updateTurn s t).detections = [(due, lines)] ∧
        (1 ≤ lines ∧ 0 < s.rules.phaseTicks ∧ t.Awaits (due + 2 * s.rules.phaseTicks) ∧
            t.timeline.LastsUntil (due + 2 * s.rules.phaseTicks) ∨
          lines = 0 ∧ t.timeline.pending = [] ∧ t.timeline.LastsUntil due) := by
  obtain ⟨checked, found, htimeline, hrules, hfound, rfl, hdetections, hplayed⟩ :=
    h.detect htick hupdate
  have hnow : checked.timeline.tick = due := by
    rw [htimeline]
    exact htick
  rw [← htimeline] at hplayed
  by_cases hlines : checked.grid.uniformLines = []
  · obtain rfl : found = ⟨checked, .ok 0⟩ := check_of_settled hlines hfound
    refine ⟨hrules, rfl, 0, ?_, .inr ⟨rfl, hplayed, ?_⟩⟩
    · rw [hdetections, hlines]
      rfl
    · have hcoast := hlasts.coast
      rw [Timeline.coast, htick, ← htimeline] at hcoast
      exact hcoast
  · obtain ⟨-, hphase, added, hstate, -⟩ := check_eq_ok hfound
    have hended : ∀ u ∈ checked.timeline.active, u.stop ≤ checked.timeline.tick := by
      rw [hnow, htimeline]
      exact Timeline.stop_le_of_mem_played hlasts.stop_le
    have hnext := awaits_of_check hlines hplayed hended hfound (Nat.le_refl _)
    rw [hnow, hrules] at hnext
    refine ⟨?_, rfl, _, hdetections, .inl ⟨List.length_pos_iff.mpr hlines, ?_, hnext⟩⟩
    · rw [hstate]
      exact hrules
    · exact hrules ▸ hphase hlines

end Frame

/-! ## Cascades -/

/-- How far the cascade after a swap has come, if its checks have found so many lines each. -/
inductive Cascade (rules : Rules) (swapped : Nat) : List Nat → Session σ → Prop where
  /-- Each check has found lines, and the game waits for the next one. -/
  | goes {lines : List Nat} {s : Session σ} (found : ∀ n ∈ lines, 1 ≤ n)
      (past : ∀ k < lines.length, detectionTick rules swapped k < s.timeline.tick)
      (tick_le : s.timeline.tick ≤ detectionTick rules swapped lines.length)
      (awaits : s.Awaits (detectionTick rules swapped lines.length))
      (lasts : s.timeline.LastsUntil (detectionTick rules swapped lines.length)) :
      Cascade rules swapped lines s
  /-- The last check has found no line. -/
  | ended {lines : List Nat} {s : Session σ} (found : ∀ n ∈ lines, 1 ≤ n)
      (past : detectionTick rules swapped lines.length < s.timeline.tick)
      (rests : s.timeline.pending = [])
      (lasts : s.timeline.LastsUntil (detectionTick rules swapped lines.length)) :
      Cascade rules swapped (lines ++ [0]) s

section Cascade

variable {rules : Rules} {swapped : Nat} {lines : List Nat} {s t : Session σ}

/-- A frame of a cascade: the game coasts, or a check is made at its tick. -/
theorem Cascade.update [Store σ] (h : Cascade rules swapped lines s) (hrules : s.rules = rules)
    (hupdate : s.update = .ok t) :
    t.rules = rules ∧ t.timeline.tick = s.timeline.tick + 1 ∧
      ∃ more, (updateTurn s t).detections =
          more.mapIdx (fun k found => (detectionTick rules swapped (k + lines.length), found)) ∧
        Cascade rules swapped (lines ++ more) t := by
  cases h with
  | goes found past tick_le awaits lasts =>
    rcases Nat.eq_or_lt_of_le tick_le with heq | hlt
    · obtain ⟨hrules', htick, n, hdetections, hnext⟩ := awaits.next lasts heq hupdate
      refine ⟨hrules'.trans hrules, by rw [htick, heq], [n], ?_, ?_⟩
      · rw [hdetections, List.mapIdx_singleton, Nat.zero_add]
      · rcases hnext with ⟨hn, hphase, hawaits, hlasts⟩ | ⟨rfl, hrests, hlasts⟩
        · have hlength : (lines ++ [n]).length = lines.length + 1 := List.length_append
          rw [hrules, ← detectionTick_succ, ← hlength] at hawaits hlasts
          refine .goes ?_ ?_ ?_ hawaits hlasts
          · intro m hm
            rcases List.mem_append.mp hm with hm | hm
            · exact found m hm
            · exact List.mem_singleton.mp hm ▸ hn
          · intro k hk
            rw [htick]
            exact Nat.lt_succ_of_le (detectionTick_le (by omega))
          · rw [htick, hlength, detectionTick_succ, ← hrules]
            omega
        · exact .ended found (by rw [htick]; exact Nat.lt_succ_self _) hrests hlasts
    · obtain ⟨rfl, hdetections, hawaits⟩ := awaits.coast hlt hupdate
      refine ⟨hrules, rfl, [], hdetections, ?_⟩
      rw [List.append_nil]
      refine .goes found ?_ hlt hawaits lasts.coast
      intro k hk
      exact Nat.lt_succ_of_lt (past k hk)
  | ended found past rests lasts =>
    have hdue : s.timeline.due = [] := by
      rw [Timeline.due_eq_pending, rests]
      rfl
    obtain rfl := eq_coast_of_due_eq_nil hdue hupdate
    refine ⟨hrules, rfl, [], detections_of_due_eq_nil hdue, ?_⟩
    rw [List.append_nil]
    refine .ended found (Nat.lt_succ_of_lt past) ?_ lasts.coast
    show s.timeline.played.pending = []
    rw [Timeline.pending_played, rests, List.filter_nil]

/-- A check has been made exactly if its tick has been played and each check before it has found a
line. -/
theorem Cascade.lt_length_iff (h : Cascade rules swapped lines s) (k : Nat) :
    k < lines.length ↔
      detectionTick rules swapped k < s.timeline.tick ∧ ∀ n ∈ lines.take k, 1 ≤ n := by
  cases h with
  | goes found past tick_le awaits lasts =>
    constructor
    · intro hk
      exact ⟨past k hk, fun n hn => found n (List.mem_of_mem_take hn)⟩
    · rintro ⟨hlt, -⟩
      by_contra hk
      have hle : detectionTick rules swapped lines.length ≤ detectionTick rules swapped k :=
        detectionTick_le (by omega)
      omega
  | @ended lines _ found past rests lasts =>
    rw [List.length_append, List.length_singleton]
    constructor
    · intro hk
      have hle : k ≤ lines.length := by omega
      refine ⟨Nat.lt_of_le_of_lt (detectionTick_le hle) past, ?_⟩
      rw [List.take_append_of_le_length hle]
      exact fun n hn => found n (List.mem_of_mem_take hn)
    · rintro ⟨-, hall⟩
      by_contra hk
      -- the empty check would be among those that have found a line
      rw [List.take_of_length_le (by rw [List.length_append, List.length_singleton]; omega)] at hall
      exact absurd (hall 0 (by simp)) (by omega)

/-- As long as each check has found a line, the game is not at rest. -/
theorem Cascade.isIdle_eq_false (h : Cascade rules swapped lines s) (hall : ∀ n ∈ lines, 1 ≤ n) :
    s.timeline.isIdle = false := by
  cases h with
  | goes found past tick_le awaits lasts =>
    rw [← Bool.not_eq_true, lasts.isIdle_iff]
    omega
  | ended found past rests lasts => exact absurd (hall 0 (by simp)) (by omega)

/-- When a check has found no line, the game is at rest from the second tick on after it. -/
theorem Cascade.isIdle_iff (h : Cascade rules swapped lines s) {k : Nat}
    (hk : lines[k]? = some 0) :
    s.timeline.isIdle = true ↔ detectionTick rules swapped k + 2 ≤ s.timeline.tick := by
  cases h with
  | goes found past tick_le awaits lasts =>
    exact absurd (found 0 (List.mem_of_getElem? hk)) (by omega)
  | @ended lines _ found past rests lasts =>
    have hlast : k = lines.length := by
      by_contra hne
      obtain ⟨hlt, -⟩ := List.getElem?_eq_some_iff.mp hk
      rw [List.length_append, List.length_singleton] at hlt
      rw [List.getElem?_append_left (by omega)] at hk
      exact absurd (found 0 (List.mem_of_getElem? hk)) (by omega)
    rw [lasts.isIdle_iff, hlast]

/-- What a run of frames after a swap has come to: its detections are the checks of the cascade. -/
structure Cascaded [Store σ] (rules : Rules) (swapped n : Nat) (lines : List Nat)
    (turns : List (Turn σ)) (t : Session σ) : Prop where
  rules_eq : t.rules = rules
  tick_eq : t.timeline.tick = swapped + n
  detections_eq : detectionsIn turns =
    lines.mapIdx fun k found => (detectionTick rules swapped k, found)
  cascade : Cascade rules swapped lines t

/-- Frame by frame, a cascade is followed from the swap on. -/
theorem cascaded_of_run [Store σ] {n : Nat} {turns : List (Turn σ)}
    (hstart : Cascade s.rules s.timeline.tick [] s)
    (h : s.run (List.replicate n .update) = .ok (turns, t)) :
    ∃ lines, Cascaded s.rules s.timeline.tick n lines turns t := by
  refine run_updates_induction (motive := fun n turns t =>
    ∃ lines, Cascaded s.rules s.timeline.tick n lines turns t) ?_ ?_ h
  · exact ⟨[], rfl, rfl, rfl, hstart⟩
  · rintro n turns u t ⟨lines, hrules, htick, hdetections, hcascade⟩ hupdate
    obtain ⟨hrules', htick', more, hmore, hnext⟩ := hcascade.update hrules hupdate
    refine ⟨lines ++ more, hrules', by rw [htick', htick, Nat.add_assoc], ?_, hnext⟩
    rw [detectionsIn, List.flatMap_append, List.flatMap_singleton, hmore, List.mapIdx_append,
      ← hdetections]
    rfl

/-- The lines found in the first frames of a run are the first lines found in it. -/
theorem Cascaded.isPrefix [Store σ] {m n : Nat} {fewer : List Nat} {earlier later : List (Turn σ)}
    (hm : Cascaded rules swapped m fewer earlier s)
    (hn : Cascaded rules swapped n lines (earlier ++ later) t) : fewer <+: lines := by
  rw [← map_snd_detections rules swapped fewer, ← map_snd_detections rules swapped lines,
    ← hm.detections_eq, ← hn.detections_eq, detectionsIn, detectionsIn, List.flatMap_append,
    List.map_append]
  exact List.prefix_append _ _

/-- If a check of a cascade has found no line, this tells for each frame up to it and after it
whether the game is at rest. -/
theorem Cascaded.isIdle_iff [Store σ] {m n k : Nat} {fewer : List Nat}
    {earlier later : List (Turn σ)} (hm : Cascaded rules swapped m fewer earlier s)
    (hn : Cascaded rules swapped n lines (earlier ++ later) t) (hk : lines[k]? = some 0) :
    s.timeline.isIdle = true ↔ 3 * rules.phaseTicks + 2 * rules.phaseTicks * k + 2 ≤ m := by
  obtain ⟨rest, rfl⟩ := hm.isPrefix hn
  have htick := hm.tick_eq
  by_cases hlt : k < fewer.length
  · -- the empty check has been made by then
    rw [List.getElem?_append_left hlt] at hk
    rw [hm.cascade.isIdle_iff hk, detectionTick]
    omega
  · -- it is still to come, and those before it have found lines
    have hall : ∀ n ∈ fewer, 1 ≤ n := by
      obtain ⟨hlength, -⟩ := List.getElem?_eq_some_iff.mp hk
      intro n hmem
      refine ((hn.cascade.lt_length_iff k).mp hlength).2 n ?_
      rw [List.take_append, List.take_of_length_le (by omega)]
      exact List.mem_append_left _ hmem
    rw [hm.cascade.isIdle_eq_false hall]
    have hlate : s.timeline.tick ≤ detectionTick rules swapped k := by
      by_contra hearly
      have hmade : ∀ n ∈ fewer.take k, 1 ≤ n := fun n hmem => hall n (List.mem_of_mem_take hmem)
      exact hlt ((hm.cascade.lt_length_iff k).mpr ⟨by omega, hmade⟩)
    rw [detectionTick] at hlate
    simp only [Bool.false_eq_true, false_iff]
    omega

/-- A swap starts a cascade. -/
theorem cascade_of_swapped {added : List (Transition Command)} (hidle : s.timeline.isIdle = true)
    (hpending : added.filterMap Transition.awaited =
      [(s.timeline.tick + 3 * s.rules.phaseTicks, .check)])
    (hstop : ∀ u ∈ added, u.stop ≤ s.timeline.tick + 3 * s.rules.phaseTicks) (grid : Grid)
    (selected : Option Pos) :
    Cascade s.rules s.timeline.tick []
      { s with timeline := s.timeline.append added, grid, selected } := by
  have hlast : s.timeline.tick + 3 * s.rules.phaseTicks = detectionTick s.rules s.timeline.tick 0 :=
    rfl
  rw [hlast] at hpending hstop
  have hle : s.timeline.tick ≤ detectionTick s.rules s.timeline.tick 0 := by
    rw [← hlast]
    exact Nat.le_add_right _ _
  refine .goes (fun _ hn => nomatch hn) (fun _ hk => nomatch hk) hle (.inl ?_) ?_
  · show (s.timeline.append added).pending = _
    rw [Timeline.pending_append, Timeline.pending_of_isIdle hidle, hpending]
    rfl
  · exact Timeline.lastsUntil_append hidle hstop (hpending ▸ List.mem_singleton_self _) hle

end Cascade

/-! ## Clicks -/

section Click

variable [Store σ] {s t : Session σ} {n : Nat} {turns : List (Turn σ)}

/-- A change of scale locks the game for one phase. -/
theorem isIdle_iff_of_resized {resized : Transition Command} {tile : TileId}
    {source target : Single} {selected : Option Pos} (hidle : s.timeline.isIdle = true)
    (hsilent : resized.onDone = none)
    (hcourse : resized.course? = some (resizeCourse s.rules s.timeline.tick tile source target))
    (h : Session.run { s with timeline := s.timeline.push resized, selected }
      (List.replicate n .update) = .ok (turns, t)) :
    t.timeline.isIdle = true ↔ s.rules.phaseTicks + 2 ≤ n := by
  have hstop : s.timeline.tick + s.rules.phaseTicks = resized.stop :=
    Transition.stop_of_course? hcourse
  have hactive : (s.timeline.push resized).active = [resized] :=
    Timeline.active_append_of_isIdle hidle _
  have hlasts : (s.timeline.push resized).LastsUntil resized.stop := by
    refine ⟨?_, fun _ => ⟨resized, ?_, rfl⟩, ?_⟩
    · simp [hactive]
    · simp [hactive]
    · intro hlate
      replace hlate : resized.stop + 2 ≤ s.timeline.tick := hlate
      omega
  have hrests : (s.timeline.push resized).pending = [].map (s.timeline.tick + n, ·) := by
    rw [s.timeline.pending_push_of_onDone_eq_none hsilent, Timeline.pending_of_isIdle hidle]
    rfl
  obtain rfl := coasts_until_due hrests (Nat.le_refl _) h
  rw [isIdle_iterate_coast_iff hlasts n]
  show resized.stop + 2 ≤ s.timeline.tick + n ↔ _
  omega

/-- How long a click that is accepted in a game at rest locks it, if only frames follow. After a
selection, or when one is given up, the game is at rest again when two frames have passed after one
phase, and not before. After a swap the board is checked at the ticks of `detectionTick` only, each
time as long as every check before has found a line. As long as none has come up empty, the game is
not at rest; if one does, it is at rest when two frames have passed after it, and not before. -/
theorem lock_of_click {call : Call} {click : Turn σ} (hphase : 0 < s.rules.phaseTicks)
    (hidle : s.timeline.isIdle = true) (hclick : s.perform call = .ok click) (n : Nat)
    (hroom : click.after.run (List.replicate n .update) ≠ .error .sumTooLarge) :
    ∃ turns t, click.after.run (List.replicate n .update) = .ok (turns, t) ∧
      (∀ pos, click.reply.answer = .ok (some (.selected pos)) ∨
          click.reply.answer = .ok (some (.cancelled pos)) →
        (t.timeline.isIdle = true ↔ s.rules.phaseTicks + 2 ≤ n)) ∧
      ∀ first second, click.reply.answer = .ok (some (.swapped first second)) →
        ∃ lines : List Nat, detectionsIn turns =
            lines.mapIdx (fun k found => (detectionTick s.rules s.timeline.tick k, found)) ∧
          (∀ k, k < lines.length ↔
            detectionTick s.rules s.timeline.tick k < s.timeline.tick + n ∧
              ∀ found ∈ lines.take k, 1 ≤ found) ∧
          ((∀ found ∈ lines, 1 ≤ found) → t.timeline.isIdle = false) ∧
          ∀ k, lines[k]? = some 0 → ∀ j ≤ n, ∃ moves u,
            click.after.run (List.replicate j .update) = .ok (moves, u) ∧
              (u.timeline.isIdle = true ↔
                3 * s.rules.phaseTicks + 2 * s.rules.phaseTicks * k + 2 ≤ j) := by
  have hrules : click.after.rules = s.rules := (changes_of_perform hclick).rules_eq
  obtain ⟨turns, t, hrun⟩ := run_of_room (hrules ▸ hphase) hroom
  refine ⟨turns, t, hrun, ?_⟩
  rcases perform_eq_ok hclick with ⟨pos, reply, hreply, rfl⟩ | ⟨stepped, after, hstep, hafter, rfl⟩
  · cases clickCell_eq_ok hreply with
    | ignored busy => cases hidle.symm.trans busy
    | missed idle error outside =>
      refine ⟨?_, fun _ _ h => nomatch h⟩
      rintro _ (h | h) <;> cases h
    | selected idle free within silent tileAt course =>
      exact ⟨fun _ _ => isIdle_iff_of_resized hidle silent course hrun, fun _ _ h => nomatch h⟩
    | cancelled idle held silent tileAt course =>
      exact ⟨fun _ _ => isIdle_iff_of_resized hidle silent course hrun, fun _ _ h => nomatch h⟩
    | @swapped idle chosen held added grid swap pending first second different tileAtChosen tileAt
        courses stop_le =>
      constructor
      · rintro _ (h | h) <;> cases h
      · intro _ _ _
        have hstart := cascade_of_swapped hidle pending stop_le grid none
        obtain ⟨lines, hlines⟩ := cascaded_of_run hstart hrun
        refine ⟨lines, hlines.detections_eq, ?_, hlines.cascade.isIdle_eq_false, ?_⟩
        · intro k
          rw [hlines.cascade.lt_length_iff k, hlines.tick_eq]
          rfl
        · intro k hk j hj
          obtain ⟨moves, u, later, hmoves, rfl⟩ := run_updates_of_le hj hrun
          obtain ⟨fewer, hfewer⟩ := cascaded_of_run hstart hmoves
          exact ⟨moves, u, hmoves, hfewer.isIdle_iff hlines hk⟩
  · refine ⟨?_, fun _ _ h => nomatch h⟩
    rintro _ (h | h) <;> cases h

/-- In the short game an orb is selected at tick zero, and swapped at tick three. The first check
after the swap finds a line, at tick six, and the second one none, at tick eight. The game is at
rest three frames after the selection, and seven frames after the swap. -/
theorem lock_of_click_shortGame :
    (∃ click turns t, shortGame.perform (.clickCell ⟨0, 0⟩) = .ok click ∧
      click.reply.answer = .ok (some (.selected ⟨0, 0⟩)) ∧
      click.after.run (List.replicate 3 .update) = .ok (turns, t) ∧ t.timeline.isIdle = true) ∧
    ∃ calls s click turns t, shortGame.run (shortCalls.take 4) = .ok (calls, s) ∧
      s.perform (.clickCell ⟨1, 0⟩) = .ok click ∧
      click.after.run (List.replicate 7 .update) = .ok (turns, t) ∧
      detectionsIn turns = [(6, 1), (8, 0)] ∧
      ∀ j ≤ 7, ∃ moves u, click.after.run (List.replicate j .update) = .ok (moves, u) ∧
        (u.timeline.isIdle = true ↔ 7 ≤ j) := by
  constructor
  · obtain ⟨click, hclick, hend⟩ := exists_of_any_toOption
      (x := shortGame.perform (.clickCell ⟨0, 0⟩))
      (fun click => decide (click.reply.answer.toOption = some (some (.selected ⟨0, 0⟩))) &&
        (click.after.run (List.replicate 3 .update)).toOption.isSome) (by decide +kernel)
    simp only [Bool.and_eq_true, decide_eq_true_eq] at hend
    obtain ⟨hanswer, hresult⟩ := hend
    obtain ⟨turns, t, hrun, hselected, -⟩ :=
      lock_of_click (by decide) rfl hclick 3 (ne_error_of_isSome_toOption hresult)
    have hanswer := eq_ok_of_toOption hanswer
    exact ⟨click, turns, t, hclick, hanswer, hrun, (hselected _ (.inl hanswer)).mpr (by decide)⟩
  · obtain ⟨⟨calls, s⟩, hcalls, hend⟩ := exists_of_any_toOption
      (x := shortGame.run (shortCalls.take 4))
      (fun (_, s) => decide (s.rules.phaseTicks = 1 ∧ s.timeline.isIdle = true) &&
        (s.perform (.clickCell ⟨1, 0⟩)).toOption.any fun click =>
          decide (click.reply.answer.toOption = some (some (.swapped ⟨0, 0⟩ ⟨1, 0⟩))) &&
          (click.after.run (List.replicate 7 .update)).toOption.any fun (turns, _) =>
            decide (detectionsIn turns = [(6, 1), (8, 0)])) (by decide +kernel)
    simp only [Bool.and_eq_true, decide_eq_true_eq] at hend
    obtain ⟨⟨hphase, hidle⟩, hclick⟩ := hend
    obtain ⟨click, hclick, hend⟩ := exists_of_any_toOption _ hclick
    simp only [Bool.and_eq_true, decide_eq_true_eq] at hend
    obtain ⟨hanswer, hturns⟩ := hend
    obtain ⟨⟨turns, t⟩, hrun, hdetections⟩ := exists_of_any_toOption _ hturns
    have hdetections : detectionsIn turns = [(6, 1), (8, 0)] := of_decide_eq_true hdetections
    have hroom : click.after.run (List.replicate 7 .update) ≠ .error .sumTooLarge := by
      rw [hrun]
      exact nofun
    obtain ⟨turns', t', hrun', -, hswapped⟩ := lock_of_click (by omega) hidle hclick 7 hroom
    obtain ⟨rfl, rfl⟩ := Prod.mk.inj (Except.ok.inj (hrun.symm.trans hrun'))
    obtain ⟨lines, hlines, -, -, hempty⟩ := hswapped _ _ (eq_ok_of_toOption hanswer)
    obtain rfl : lines = [1, 0] := by
      rw [← map_snd_detections s.rules s.timeline.tick lines, ← hlines, hdetections]
      rfl
    refine ⟨calls, s, click, turns, t, hcalls, hclick, hrun, hdetections, ?_⟩
    rw [hphase] at hempty
    exact hempty 1 rfl

end Click

end Session

end OrbPuzzle
