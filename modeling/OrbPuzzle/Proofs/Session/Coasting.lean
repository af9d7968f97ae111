import Mathlib.Logic.Function.Iterate
import OrbPuzzle.Proofs.Session.Invariance
import OrbPuzzle.Proofs.Session.Turn

/-!
# Frames in which a game coasts

In most frames of a game no command is due, or none that changes anything. Such a frame plays its
tick and moves the clock on: the game coasts (`coast`). Over any number of such frames the faces of
the board stay, and so does everything that is not shown; a tile that no course names stays as it is
(`coasted_iterate`); what is pending becomes due at its tick (`due_iterate_coast`); and the
game is at rest from the second tick on after the last transition has ended, and not before
(`isIdle_iterate_coast_iff`).

A run of frames alone is taken apart frame by frame with `run_updates_induction`. Unless its counts
run out, it has a result (`run_of_room`).
-/

namespace OrbPuzzle

/-! ## How long a timeline lasts -/

namespace Timeline

variable {κ : Type} {t : Timeline κ} {stop : Nat}

/-- The last transition ends at the given tick. It is dropped when a later tick is played, and then
nothing is in progress any more. -/
structure LastsUntil (t : Timeline κ) (stop : Nat) : Prop where
  stop_le : ∀ u ∈ t.active, u.stop ≤ stop
  exists_stop : t.tick ≤ stop + 1 → ∃ u ∈ t.active, u.stop = stop
  isIdle : stop + 2 ≤ t.tick → t.isIdle = true

/-- A timeline is idle from the second tick on after its last transition has ended. -/
theorem LastsUntil.isIdle_iff (h : t.LastsUntil stop) : t.isIdle = true ↔ stop + 2 ≤ t.tick := by
  refine ⟨?_, h.isIdle⟩
  intro hidle
  by_contra hnot
  obtain ⟨u, hu, -⟩ := h.exists_stop (by omega)
  rw [List.isEmpty_iff.mp hidle] at hu
  cases hu

/-- A command that is pending for the last tick tells how long a timeline lasts. -/
theorem lastsUntil_of_mem_pending {command : κ} (hstop : ∀ u ∈ t.active, u.stop ≤ stop)
    (hpending : (stop, command) ∈ t.pending) (htick : t.tick ≤ stop + 1) : t.LastsUntil stop := by
  refine ⟨hstop, fun _ => ?_, fun hlate => absurd hlate (by omega)⟩
  obtain ⟨u, hu, hawaited⟩ := List.mem_filterMap.mp hpending
  obtain ⟨_, -, heq⟩ := Option.map_eq_some_iff.mp hawaited
  exact ⟨u, hu, (Prod.mk.inj heq).1⟩

theorem active_append_of_isIdle (hidle : t.isIdle = true) (added : List (Transition κ)) :
    (t.append added).active = added := by
  rw [active_append, List.isEmpty_iff.mp hidle, List.nil_append]

/-- What is added to an idle timeline tells how long it lasts. -/
theorem lastsUntil_append {added : List (Transition κ)} {command : κ} (hidle : t.isIdle = true)
    (hstop : ∀ u ∈ added, u.stop ≤ stop)
    (hpending : (stop, command) ∈ added.filterMap Transition.awaited) (htick : t.tick ≤ stop) :
    (t.append added).LastsUntil stop := by
  have hactive := active_append_of_isIdle hidle added
  rw [← hactive] at hstop hpending
  exact lastsUntil_of_mem_pending hstop hpending (Nat.le_succ_of_le htick)

/-- The timeline one tick later, if nothing is added. -/
def coast (t : Timeline κ) : Timeline κ := { t.played with tick := t.tick + 1 }

theorem stop_le_of_mem_played (hstop : ∀ u ∈ t.active, u.stop ≤ stop) :
    ∀ u ∈ t.played.active, u.stop ≤ stop := by
  intro u hu
  obtain ⟨v, hv, rfl⟩ := List.mem_map.mp hu
  rw [Transition.stop_played]
  exact hstop v (List.mem_of_mem_filter hv)

theorem LastsUntil.coast (h : t.LastsUntil stop) : t.coast.LastsUntil stop := by
  refine ⟨stop_le_of_mem_played h.stop_le, ?_, ?_⟩
  · -- the last transition has not ended before this tick, so it is not dropped
    intro hle
    have hle : t.tick ≤ stop := Nat.le_of_succ_le_succ hle
    obtain ⟨u, hu, rfl⟩ := h.exists_stop (by omega)
    refine ⟨u.played t.tick, List.mem_map_of_mem (List.mem_filter.mpr ⟨hu, ?_⟩), Transition.stop_played u _⟩
    exact decide_eq_true hle
  · intro hlate
    have hlate : stop + 1 ≤ t.tick := Nat.le_of_succ_le_succ hlate
    have hnone : t.active.filter (t.tick ≤ ·.stop) = [] := by
      rw [List.filter_eq_nil_iff]
      intro u hu
      have hle := h.stop_le u hu
      simp only [decide_eq_true_eq]
      omega
    rw [Timeline.isIdle, Timeline.coast, played, hnone]
    rfl

/-! ## Tiles that no course names -/

theorem foldl_shift_of_forall_ne {tick : Nat} {courses : List Course} {tile : Tile}
    (h : ∀ c ∈ courses, c.motion.tile ≠ tile.id) :
    courses.foldl (Course.shift tick) tile = tile := by
  induction courses with
  | nil => rfl
  | cons c rest ih =>
    have hfirst : c.shift tick tile = tile :=
      if_neg fun hc => h c List.mem_cons_self hc.2
    rw [List.foldl_cons, hfirst]
    exact ih fun c hc => h c (List.mem_cons_of_mem _ hc)

/-- Playing a tick leaves alone every tile that no course names. -/
theorem tileAt_animate_of_forall_ne {g : Grid} (h : g.ids.Nodup) {p : Pos} {tile : Tile}
    (htile : g.tileAt p = .ok tile) (hother : ∀ c ∈ t.courses, c.motion.tile ≠ tile.id) :
    (t.animate g).tileAt p = .ok tile := by
  obtain ⟨hp, htile⟩ := Grid.tileAt_eq_ok_iff.mp htile
  have hsize := (t.sameFaces_animate g).size_eq
  rw [Grid.tileAt_eq_ok_iff, hsize, tiles_animate t h, Array.getElem?_map, htile, Option.map_some,
    foldl_shift_of_forall_ne hother]
  exact ⟨hp, rfl⟩

end Timeline

namespace Session

variable {σ : Type}

/-! ## One frame -/

/-- The game one frame later, if no command is carried out that changes it. -/
def coast (s : Session σ) : Session σ := { s.animated with timeline := s.timeline.coast }

variable {s t : Session σ}

/-- A frame is a step, after which the clock moves on. -/
theorem update_eq_ok [Store σ] (h : s.update = .ok t) :
    ∃ stepped, s.step = .ok stepped ∧
      t = { stepped with timeline := { stepped.timeline with tick := s.timeline.tick + 1 } } := by
  obtain ⟨stepped, hstep, hadvance⟩ := bind_eq_ok_iff.mp h
  refine ⟨stepped, hstep, ?_⟩
  rw [← (pendingFrom_of_step hstep).1]
  exact advance_eq_ok hadvance

/-- When no command is due, a game coasts. -/
theorem eq_coast_of_due_eq_nil [Store σ] (hdue : s.timeline.due = []) (h : s.update = .ok t) :
    t = s.coast := by
  obtain ⟨stepped, hstep, rfl⟩ := update_eq_ok h
  rw [step_eq_executeAll, hdue] at hstep
  obtain rfl := pure_eq_ok_iff.mp hstep
  rfl

/-- When a check is due and the board is settled, a game coasts too. -/
theorem eq_coast_of_settled [Store σ] (hdue : s.timeline.due = [.check])
    (hsettled : s.grid.uniformLines = []) (h : s.update = .ok t) : t = s.coast := by
  obtain ⟨stepped, hstep, rfl⟩ := update_eq_ok h
  rw [step_eq_executeAll, hdue] at hstep
  obtain ⟨reply, hreply, rfl⟩ := executeAll_singleton_eq_ok hstep
  obtain ⟨found, hfound, rfl⟩ := execute_check_eq_ok hreply
  have hnone : s.animated.grid.uniformLines = [] := by
    rw [s.sameGame_animated.sameFaces.uniformLines_eq, hsettled]
  obtain rfl : found = ⟨s.animated, .ok 0⟩ := check_of_settled hnone hfound
  rfl

/-! ## Many frames -/

/-- What is left of a game when it has coasted for a number of frames. -/
structure Coasted (s : Session σ) (n : Nat) (t : Session σ) : Prop extends SameGame s t where
  tick_eq : t.timeline.tick = s.timeline.tick + n
  highScore_eq : t.highScore = s.highScore
  selected_eq : t.selected = s.selected
  host_eq : t.host = s.host
  courses_subset : ∀ c ∈ t.timeline.courses, c ∈ s.timeline.courses
  /-- Tiles that no course names have not changed. -/
  tileAt_eq : s.grid.ids.Nodup → ∀ p tile, s.grid.tileAt p = .ok tile →
    (∀ c ∈ s.timeline.courses, c.motion.tile ≠ tile.id) → t.grid.tileAt p = .ok tile

theorem Coasted.coast {n : Nat} (h : Coasted s n t) : Coasted s (n + 1) t.coast := by
  have same := t.sameGame_animated
  refine ⟨⟨⟨h.rules_eq, same.size_eq.trans h.size_eq, same.nextId_eq.trans h.nextId_eq, h.score_eq,
    h.generator_eq⟩, same.faces_eq.trans h.faces_eq⟩, ?_, h.highScore_eq, h.selected_eq, h.host_eq,
    ?_, ?_⟩
  · show t.timeline.tick + 1 = s.timeline.tick + (n + 1)
    rw [h.tick_eq, Nat.add_assoc]
  · intro c hc
    replace hc : c ∈ t.timeline.played.courses := hc
    rw [Timeline.courses_played] at hc
    exact h.courses_subset c (List.mem_of_mem_filter hc)
  · intro hids p tile htile hother
    have hids' : t.grid.ids.Nodup := by
      rw [h.sameFaces.ids_eq]
      exact hids
    exact Timeline.tileAt_animate_of_forall_ne hids' (h.tileAt_eq hids p tile htile hother)
      fun c hc => hother c (h.courses_subset c hc)

theorem coasted_iterate (s : Session σ) (n : Nat) : Coasted s n (coast^[n] s) := by
  induction n with
  | zero =>
    exact ⟨SameGame.refl s, rfl, rfl, rfl, rfl, fun _ hc => hc, fun _ _ _ htile _ => htile⟩
  | succ n ih =>
    rw [Function.iterate_succ_apply']
    exact ih.coast

/-- While a game coasts, commands that are pending for one tick become due at that tick. -/
theorem due_iterate_coast {commands : List Command} {due : Nat}
    (hpending : s.timeline.pending = commands.map (due, ·)) (n : Nat) :
    (coast^[n] s).timeline.due = if due = s.timeline.tick + n then commands else [] := by
  have hlater : ∀ tick, s.timeline.tick + n ≤ tick →
      (coast^[n] s).timeline.dueAt tick = s.timeline.dueAt tick := by
    induction n with
    | zero => exact fun _ _ => rfl
    | succ n ih =>
      intro tick hle
      have htick := (s.coasted_iterate n).tick_eq
      have hne : (coast^[n] s).timeline.tick ≠ tick := by omega
      rw [Function.iterate_succ_apply']
      show (coast^[n] s).timeline.played.dueAt tick = _
      rw [Timeline.dueAt_played _ (by omega), if_neg hne, ih tick (by omega)]
  calc (coast^[n] s).timeline.due
    _ = (coast^[n] s).timeline.dueAt (s.timeline.tick + n) := by
        rw [← (s.coasted_iterate n).tick_eq]
        rfl
    _ = s.timeline.dueAt (s.timeline.tick + n) := hlater _ (Nat.le_refl _)
    _ = if due = s.timeline.tick + n then commands else [] :=
        Timeline.due_of_pending_eq (t := { s.timeline with tick := s.timeline.tick + n }) hpending

/-- A game that coasts comes to rest at the second tick after the last of its transitions has ended,
and not before. -/
theorem isIdle_iterate_coast_iff {stop : Nat} (hlasts : s.timeline.LastsUntil stop) (n : Nat) :
    (coast^[n] s).timeline.isIdle = true ↔ stop + 2 ≤ s.timeline.tick + n := by
  have hlasts' : (coast^[n] s).timeline.LastsUntil stop := by
    induction n with
    | zero => exact hlasts
    | succ n ih =>
      rw [Function.iterate_succ_apply']
      exact ih.coast
  rw [hlasts'.isIdle_iff, (s.coasted_iterate n).tick_eq]

/-! ## Runs of frames -/

/-- The record of a frame. -/
def updateTurn [Store σ] (s t : Session σ) : Turn σ := ⟨s, s.stepExecutions, ⟨t, .ok none⟩⟩

/-- The last frame of a run of frames. -/
theorem run_updates_succ [Store σ] {n : Nat} {turns : List (Turn σ)}
    (h : s.run (List.replicate (n + 1) .update) = .ok (turns, t)) :
    ∃ earlier u, s.run (List.replicate n .update) = .ok (earlier, u) ∧ u.update = .ok t ∧
      turns = earlier ++ [updateTurn u t] := by
  rw [List.replicate_succ', run, runAll_append] at h
  obtain ⟨⟨earlier, u⟩, hearlier, h⟩ := bind_eq_ok_iff.mp h
  obtain ⟨⟨later, final⟩, hlater, h⟩ := bind_eq_ok_iff.mp h
  obtain ⟨rfl, rfl⟩ := Prod.mk.inj (pure_eq_ok_iff.mp h)
  obtain ⟨turn, hturn, hlater⟩ := bind_eq_ok_iff.mp hlater
  obtain ⟨after, hafter, hturn⟩ := bind_eq_ok_iff.mp hturn
  obtain rfl := pure_eq_ok_iff.mp hturn
  obtain ⟨rfl, rfl⟩ := Prod.mk.inj (pure_eq_ok_iff.mp hlater)
  exact ⟨earlier, u, hearlier, hafter, rfl⟩

/-- What holds before the first frame, and is kept by each frame, holds after every run of frames.
-/
theorem run_updates_induction [Store σ] {motive : Nat → List (Turn σ) → Session σ → Prop} {n : Nat}
    {turns : List (Turn σ)} (first : motive 0 [] s)
    (next : ∀ n turns u t, motive n turns u → u.update = .ok t →
      motive (n + 1) (turns ++ [updateTurn u t]) t)
    (h : s.run (List.replicate n .update) = .ok (turns, t)) : motive n turns t := by
  induction n generalizing turns t with
  | zero =>
    cases h
    exact first
  | succ n ih =>
    obtain ⟨earlier, u, hearlier, hupdate, rfl⟩ := run_updates_succ h
    exact next n earlier u t (ih hearlier) hupdate

/-- If a run of frames has a result, so has every shorter one. -/
theorem run_updates_of_le [Store σ] {m n : Nat} {turns : List (Turn σ)} (hle : m ≤ n)
    (h : s.run (List.replicate n .update) = .ok (turns, t)) :
    ∃ earlier u later, s.run (List.replicate m .update) = .ok (earlier, u) ∧
      turns = earlier ++ later := by
  induction n generalizing turns t with
  | zero =>
    obtain rfl : m = 0 := by omega
    exact ⟨turns, t, [], h, (List.append_nil _).symm⟩
  | succ n ih =>
    rcases Nat.eq_or_lt_of_le hle with rfl | hlt
    · exact ⟨turns, t, [], h, (List.append_nil _).symm⟩
    · obtain ⟨front, u, hfront, -, rfl⟩ := run_updates_succ h
      obtain ⟨earlier, v, later, hearlier, rfl⟩ := ih (by omega) hfront
      exact ⟨earlier, v, later ++ [updateTurn u t], hearlier, List.append_assoc _ _ _⟩

/-- A game coasts through a run of frames if it coasts through each of them. -/
theorem coasts_of_run [Store σ] {n : Nat} {turns : List (Turn σ)}
    (hstill : ∀ m < n, ∀ u, (coast^[m] s).update = .ok u → u = (coast^[m] s).coast)
    (h : s.run (List.replicate n .update) = .ok (turns, t)) :
    t = coast^[n] s ∧ ∀ turn ∈ turns, ∃ m, turn.after = coast^[m] s := by
  induction n generalizing turns t with
  | zero =>
    cases h
    exact ⟨rfl, fun _ hturn => nomatch hturn⟩
  | succ n ih =>
    obtain ⟨earlier, u, hearlier, hupdate, rfl⟩ := run_updates_succ h
    obtain ⟨rfl, hbefore⟩ := ih (fun m hm => hstill m (by omega)) hearlier
    have hlast : t = coast^[n + 1] s := by
      rw [Function.iterate_succ_apply']
      exact hstill n (by omega) t hupdate
    refine ⟨hlast, ?_⟩
    intro turn hturn
    rw [List.mem_append, List.mem_singleton] at hturn
    rcases hturn with hturn | rfl
    · exact hbefore turn hturn
    · exact ⟨n + 1, hlast⟩

/-- Until the tick comes for which commands are pending, a game coasts. -/
theorem coasts_until_due [Store σ] {commands : List Command} {due n : Nat} {turns : List (Turn σ)}
    (hpending : s.timeline.pending = commands.map (due, ·)) (hle : s.timeline.tick + n ≤ due)
    (h : s.run (List.replicate n .update) = .ok (turns, t)) : t = coast^[n] s := by
  refine (coasts_of_run ?_ h).1
  intro m hm u hu
  refine eq_coast_of_due_eq_nil ?_ hu
  rw [due_iterate_coast hpending, if_neg (by omega)]

/-! ## Results -/

/-- A run has a result unless it runs out of counts. -/
theorem run_of_room [Store σ] (hphase : 0 < s.rules.phaseTicks) {calls : List Call}
    (hroom : s.run calls ≠ .error .sumTooLarge) : ∃ turns t, s.run calls = .ok (turns, t) := by
  -- a game is in step with itself, and games in step fault together and in one way only
  have hruns := (inStep_later hphase 0).run calls
  generalize s.run calls = first, (s.later 0).run calls = second at hruns hroom
  cases hruns with
  | @ok r _ _ => exact ⟨r.1, r.2, rfl⟩
  | both => exact absurd rfl hroom
  | ahead pos => exact absurd pos (Nat.lt_irrefl 0)

end Session

end OrbPuzzle
