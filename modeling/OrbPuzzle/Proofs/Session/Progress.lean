import OrbPuzzle.Proofs.Session.Accounting
import OrbPuzzle.Proofs.Session.Operations

/-!
# Calls do not fault while there is room

A call can fault only by running out of counts: a transition that has to end at a tick past the
last one, or a refill when all ids are spent. How much a single call can use up is bounded. A swap
looks three phases ahead, a clearing two, and a frame moves the clock by one tick; a step refills
the cells of at most one pass, which has no more lines than the board has rows and columns. So in
every game that calls can lead to, the next call has a result as long as there is room for that much
(`perform_of_room`).

Each operation has one lemma here that says how much room it needs. What its result is like, if
there is one, has been said before.
-/

namespace OrbPuzzle

/-- An operation does not fault. -/
def HasResult {ε α : Type} (x : Except ε α) : Prop := ∃ a, x = .ok a

theorem HasResult.bind {ε α β : Type} {x : Except ε α} {f : α → Except ε β} (h : HasResult x)
    (next : ∀ a, x = .ok a → HasResult (f a)) : HasResult (x >>= f) := by
  obtain ⟨a, rfl⟩ := h
  exact next a rfl

theorem hasResult_add {a b : Nat} (h : a + b < Count.limit) : HasResult (Count.add a b) :=
  ⟨a + b, Count.add_eq_ok_iff.mpr ⟨rfl, h⟩⟩

theorem Transition.hasResult_make {κ : Type} {start stop : Nat} (motion : Option Motion)
    (onDone : Option κ) (h : start < stop) : HasResult (make start stop motion onDone) :=
  ⟨_, dif_pos h⟩

/-! ## Boards -/

namespace Grid

/-- The slots of a board that was made can be counted. -/
theorem size_mul_size_lt {n : Nat} {color : Pos → Color} {g : Grid}
    (h : tabulate n color = .ok g) : n * n < Count.limit := by
  obtain ⟨_, hslots, -⟩ := bind_eq_ok_iff.mp h
  obtain ⟨count, hcount, -⟩ := bind_eq_ok_iff.mp hslots
  obtain ⟨rfl, hlt⟩ := Count.mul_eq_ok_iff.mp hcount
  exact hlt

theorem hasResult_respawn {g : Grid} (p : Pos) (color : Color) (h : g.nextId + 1 < Count.limit) :
    HasResult (g.respawn p color) := by
  unfold respawn
  cases g.slot p with
  | error e => exact ⟨_, rfl⟩
  | ok i => exact (hasResult_add h).bind fun _ _ => ⟨_, rfl⟩

end Grid

/-! ## Clearings -/

namespace Clearing

theorem hasResult_transitions (rules : Rules) {ticks : Schedule}
    (hshrinks : ticks.start < ticks.shrunk) (hslides : ticks.shrunk < ticks.gone) (g : Grid)
    (cells : List (Line × Pos)) : HasResult (transitions rules ticks g cells) := by
  induction cells with
  | nil => exact ⟨_, rfl⟩
  | cons cell rest ih =>
    obtain ⟨line, pos⟩ := cell
    unfold transitions
    cases g.tileAt pos with
    | error e => exact ⟨_, rfl⟩
    | ok tile =>
      have hcell : HasResult (cellTransitions rules ticks line pos tile) :=
        (Transition.hasResult_make _ _ hshrinks).bind fun _ _ =>
          (Transition.hasResult_make _ _ hslides).bind fun _ _ => ⟨_, rfl⟩
      exact hcell.bind fun _ _ => ih.bind fun _ _ => ⟨_, rfl⟩

/-- A clearing needs two phases. -/
theorem hasResult_queue {rules : Rules} (hphase : 0 < rules.phaseTicks) (g : Grid)
    (lines : List Line) {timeline : Timeline Command}
    (h : timeline.tick + 2 * rules.phaseTicks < Count.limit) :
    HasResult (queue rules g lines timeline) := by
  unfold queue
  split
  · exact ⟨_, rfl⟩
  · have hstarting : HasResult (Schedule.starting timeline.tick rules.phaseTicks) := by
      refine (hasResult_add (by omega)).bind ?_
      intro shrunk hshrunk
      obtain ⟨rfl, -⟩ := Count.add_eq_ok_iff.mp hshrunk
      exact (hasResult_add (by omega)).bind fun _ _ => ⟨_, rfl⟩
    refine hstarting.bind ?_
    intro ticks hticks
    obtain ⟨hstart, hshrunk, hgone⟩ := Schedule.starting_eq_ok hticks
    have hshrinks : ticks.start < ticks.shrunk := by omega
    have hslides : ticks.shrunk < ticks.gone := by omega
    refine (hasResult_transitions rules hshrinks hslides g _).bind ?_
    rintro ⟨added, answer⟩ -
    cases answer with
    | error e => exact ⟨_, rfl⟩
    | ok _ => exact (Transition.hasResult_make _ _ hslides).bind fun _ _ => ⟨_, rfl⟩

end Clearing

namespace Session

variable {σ : Type} {s : Session σ}

/-! ## Clicks -/

/-- Changing the scale of an orb needs one phase. -/
theorem hasResult_resize (hphase : 0 < s.rules.phaseTicks) (pos : Pos) (source target : Single)
    (h : s.timeline.tick + s.rules.phaseTicks < Count.limit) :
    HasResult (s.resize pos source target) := by
  refine (hasResult_add h).bind ?_
  intro stop hstop
  obtain ⟨rfl, -⟩ := Count.add_eq_ok_iff.mp hstop
  cases s.grid.tileAt pos with
  | error e => exact ⟨_, rfl⟩
  | ok tile =>
    exact (Transition.hasResult_make _ _ (Nat.lt_add_of_pos_right hphase)).bind
      fun _ _ => ⟨_, rfl⟩

theorem hasResult_swapTransitions {rules : Rules} (hphase : 0 < rules.phaseTicks) {tick : Nat}
    (first second : Tile) (h : tick + 3 * rules.phaseTicks < Count.limit) :
    HasResult (swapTransitions rules tick first second) := by
  refine (hasResult_add (by omega)).bind ?_
  intro shrunk hshrunk
  obtain ⟨rfl, -⟩ := Count.add_eq_ok_iff.mp hshrunk
  refine (hasResult_add (by omega)).bind ?_
  intro moved hmoved
  obtain ⟨rfl, -⟩ := Count.add_eq_ok_iff.mp hmoved
  refine (hasResult_add (by omega)).bind ?_
  intro grown hgrown
  obtain ⟨rfl, -⟩ := Count.add_eq_ok_iff.mp hgrown
  -- all seven transitions last one phase
  have hspan (start : Nat) : start < start + rules.phaseTicks := Nat.lt_add_of_pos_right hphase
  refine (Transition.hasResult_make _ _ (hspan _)).bind fun _ _ => ?_
  refine (Transition.hasResult_make _ _ (hspan _)).bind fun _ _ => ?_
  refine (Transition.hasResult_make _ _ (hspan _)).bind fun _ _ => ?_
  refine (Transition.hasResult_make _ _ (hspan _)).bind fun _ _ => ?_
  refine (Transition.hasResult_make _ _ (hspan _)).bind fun _ _ => ?_
  refine (Transition.hasResult_make _ _ (hspan _)).bind fun _ _ => ?_
  refine (Transition.hasResult_make _ _ (hspan _)).bind fun _ _ => ?_
  exact ⟨_, rfl⟩

/-- A swap needs three phases. -/
theorem hasResult_swap (hphase : 0 < s.rules.phaseTicks) (first second : Pos)
    (h : s.timeline.tick + 3 * s.rules.phaseTicks < Count.limit) :
    HasResult (s.swap first second) := by
  unfold swap
  cases s.grid.tileAt first with
  | error e => exact ⟨_, rfl⟩
  | ok firstTile =>
    cases s.grid.tileAt second with
    | error e => exact ⟨_, rfl⟩
    | ok secondTile =>
      refine (hasResult_swapTransitions hphase firstTile secondTile h).bind fun _ _ => ?_
      cases s.grid.swap first second with
      | error e => exact ⟨_, rfl⟩
      | ok grid => exact ⟨_, rfl⟩

theorem hasResult_concludeClick {reply : Except Fault (Reply (Session σ) Unit)}
    (h : HasResult reply) (selected : Option Pos) (outcome : ClickOutcome) :
    HasResult (concludeClick reply selected outcome) := by
  refine h.bind ?_
  rintro ⟨s, answer⟩ -
  cases answer with
  | error e => exact ⟨_, rfl⟩
  | ok _ => exact ⟨_, rfl⟩

/-- A click needs no more than a swap. -/
theorem hasResult_clickCell (hphase : 0 < s.rules.phaseTicks) (pos : Pos)
    (h : s.timeline.tick + 3 * s.rules.phaseTicks < Count.limit) :
    HasResult (s.clickCell pos) := by
  have hresize (source target : Single) : HasResult (s.resize pos source target) :=
    hasResult_resize hphase pos source target (by omega)
  unfold clickCell
  dsimp only
  split
  · exact ⟨_, rfl⟩
  · cases s.selected with
    | none => exact hasResult_concludeClick (hresize _ _) _ _
    | some chosen =>
      dsimp only
      split
      · exact hasResult_concludeClick (hresize _ _) _ _
      · exact hasResult_concludeClick (hasResult_swap hphase chosen pos h) _ _

/-! ## Steps -/

theorem hasResult_check (hphase : 0 < s.rules.phaseTicks)
    (h : s.timeline.tick + 2 * s.rules.phaseTicks < Count.limit) : HasResult s.check :=
  (Clearing.hasResult_queue hphase s.grid s.grid.uniformLines h).bind fun _ _ => ⟨_, rfl⟩

theorem hasResult_place (pos : Pos) (draw : Color × Generator)
    (h : s.grid.nextId + 1 < Count.limit) : HasResult (s.place pos draw) := by
  refine (Grid.hasResult_respawn pos draw.1 h).bind ?_
  intro answer _
  cases answer with
  | error e => exact ⟨_, rfl⟩
  | ok placed => exact ⟨_, rfl⟩

/-- A list of refills needs an id for each of them. -/
theorem hasResult_executeAll_refills [Store σ] {cells : List Pos}
    (hcells : ∀ pos ∈ cells, pos.Within s.grid.size)
    (h : s.grid.nextId + cells.length < Count.limit) :
    HasResult (s.executeAll (cells.map .refill)) := by
  induction cells generalizing s with
  | nil => exact ⟨_, rfl⟩
  | cons pos rest ih =>
    have hone : 1 ≤ (pos :: rest).length := Nat.succ_le_succ (Nat.zero_le _)
    rw [List.map_cons, executeAll_cons]
    refine (hasResult_place pos _ (Nat.lt_of_le_of_lt (Nat.add_le_add_left hone _) h)).bind ?_
    intro reply hreply
    obtain ⟨-, grid, generator, hstate, -, hsize, hnextId⟩ :=
      place_eq_ok (hcells pos List.mem_cons_self) hreply
    rw [hstate]
    apply ih
    · intro pos hpos
      show pos.Within grid.size
      rw [hsize]
      exact hcells pos (List.mem_cons_of_mem _ hpos)
    · show grid.nextId + rest.length < Count.limit
      rw [hnextId, Nat.add_assoc, Nat.add_comm 1]
      exact h

/-- A tally needs the two phases of the clearing that may follow it. -/
theorem hasResult_execute_tally [Store σ] (lines : Nat) (hphase : 0 < s.rules.phaseTicks)
    (h : s.timeline.tick + 2 * s.rules.phaseTicks < Count.limit) :
    HasResult (s.execute (.tally lines)) := by
  obtain ⟨highScore, host, hscored⟩ := s.addScore_eq lines
  have hcheck : HasResult (s.addScore lines).check := by
    rw [hscored]
    exact hasResult_check hphase h
  exact hcheck.bind fun _ _ => ⟨_, rfl⟩

/-- A step of a well paced game ends at most one pass. It needs an id for each cell of the lines of
that pass, and two phases for the clearing that may follow. -/
theorem hasResult_step [Store σ] (hs : s.WellPaced) (hphase : 0 < s.rules.phaseTicks)
    (hticks : s.timeline.tick + 2 * s.rules.phaseTicks < Count.limit)
    (hids : s.grid.nextId + 2 * s.grid.size * s.grid.size < Count.limit) : HasResult s.step := by
  have same := s.sameGame_animated
  rw [step_eq_executeAll]
  obtain ⟨pass, hpass⟩ := hs.inPass
  cases pass with
  | none =>
    have hpending : s.timeline.pending = [].map (s.timeline.tick, ·) := hpass
    rw [Timeline.due_of_pending_eq hpending, if_pos rfl]
    exact ⟨_, rfl⟩
  | check =>
    obtain ⟨tick, -, hpending⟩ := hpass
    have hpending : s.timeline.pending = [Command.check].map (tick, ·) := hpending
    rw [Timeline.due_of_pending_eq hpending]
    split
    · rw [executeAll_cons]
      have hcheck : HasResult s.animated.check := hasResult_check hphase hticks
      exact (hcheck.bind fun _ _ => ⟨_, rfl⟩).bind fun _ _ => ⟨_, rfl⟩
    · exact ⟨_, rfl⟩
  | clearing =>
    obtain ⟨-, tick, -, hpending⟩ := hpass
    rw [Timeline.due_of_pending_eq hpending]
    split
    · -- the lines of the pass are no more than the rows and columns of the board
      have hcells : ∀ pos ∈ s.grid.uniformLines.flatMap (fun line => line.cells s.grid.size),
          pos.Within s.animated.grid.size := by
        intro pos hpos
        obtain ⟨line, hline, hpos⟩ := List.mem_flatMap.mp hpos
        rw [same.size_eq]
        exact Grid.within_of_mem_uniformLines hline hpos
      have hlength : (s.grid.uniformLines.flatMap fun line => line.cells s.grid.size).length ≤
          2 * s.grid.size * s.grid.size := by
        rw [← List.length_map Command.refill, ← Clearing.refills, Clearing.length_refills,
          Nat.mul_comm]
        exact Nat.mul_le_mul_right _ s.grid.length_uniformLines_le
      have hrefills := hasResult_executeAll_refills hcells
        (same.nextId_eq ▸ Nat.lt_of_le_of_lt (Nat.add_le_add_left hlength _) hids)
      rw [executeAll_append]
      refine hrefills.bind ?_
      intro refilled hrefilled
      obtain ⟨grid, generator, rfl, -⟩ := executeAll_refills hcells hrefilled
      have htally : HasResult (({ s.animated with grid, generator } : Session σ).execute
          (.tally s.grid.uniformLines.length)) := by
        apply hasResult_execute_tally
        · exact hphase
        · exact hticks
      rw [executeAll_cons]
      exact htally.bind fun _ _ => ⟨_, rfl⟩
    · exact ⟨_, rfl⟩

theorem hasResult_advance (h : s.timeline.tick + 1 < Count.limit) : HasResult s.advance := by
  have htimeline : HasResult s.timeline.advance := (hasResult_add h).bind fun _ _ => ⟨_, rfl⟩
  exact htimeline.bind fun _ _ => ⟨_, rfl⟩

/-! ## Calls -/

theorem hasResult_perform [Store σ] (hs : s.WellPaced) (hphase : 0 < s.rules.phaseTicks)
    (hticks : s.timeline.tick + 3 * s.rules.phaseTicks < Count.limit)
    (hids : s.grid.nextId + 2 * s.grid.size * s.grid.size < Count.limit) (call : Call) :
    HasResult (s.perform call) := by
  have hclick (pos : Pos) : HasResult (s.clickCell pos) := hasResult_clickCell hphase pos hticks
  have hstep : HasResult s.step := hasResult_step hs hphase (by omega) hids
  have hupdate : HasResult s.update := by
    refine hstep.bind ?_
    intro stepped hstepped
    have htick := (pendingFrom_of_step hstepped).1
    exact hasResult_advance (by omega)
  cases call with
  | click x y surfaceSize => exact (hclick _).bind fun _ _ => ⟨_, rfl⟩
  | clickCell pos => exact (hclick pos).bind fun _ _ => ⟨_, rfl⟩
  | step => exact hstep.bind fun _ _ => ⟨_, rfl⟩
  | update => exact hupdate.bind fun _ _ => ⟨_, rfl⟩
  | frame surface =>
    rw [perform_frame]
    exact hupdate.bind fun _ _ => ⟨_, rfl⟩

/-- A run is played by the same rules to its end. -/
theorem rules_of_run [Store σ] {t : Session σ} {calls : List Call} {turns : List (Turn σ)}
    (h : s.run calls = .ok (turns, t)) : t.rules = s.rules := by
  refine runAll_induction (motive := fun _ t => t.rules = s.rules) rfl ?_ h
  intro _ t call turn ht hturn
  exact (changes_of_perform hturn).rules_eq.trans ht

/-- In every game that calls can lead to, the next call does not fault, whatever it is, if there is
room for three phases on the clock and for two ids for each slot. The score stays below its limit.
Nor can the arithmetic go wrong that is done without a check: the place in storage of a cell of the
board can be counted, and a transition that gives a value has started and has not lasted longer than
its span. -/
theorem perform_of_room [Store σ] {n : Nat} {color : Pos → Color} {rules : Rules} {host : Host σ}
    {grid : Grid} {generator : Generator} {calls : List Call} {turns : List (Turn σ)}
    (hgrid : Grid.tabulate n color = .ok grid) (hphase : 0 < rules.phaseTicks)
    (h : (start rules host grid generator).run calls = .ok (turns, s))
    (hticks : s.timeline.tick + 3 * rules.phaseTicks < Count.limit)
    (hids : s.grid.nextId + 2 * n * n < Count.limit) :
    (∀ call, ∃ turn, s.perform call = .ok turn ∧ turn.after.score ≤ Score.limit) ∧
      (∀ p : Pos, p.Within s.grid.size → p.col * s.grid.size + p.row < Count.limit) ∧
      ∀ u ∈ s.timeline.active, ∀ value, u.valueAt s.timeline.tick = some value →
        u.start ≤ s.timeline.tick ∧ u.start < u.stop ∧
          s.timeline.tick - u.start ≤ u.stop - u.start := by
  obtain ⟨hpaced, hbalanced⟩ := run_effect_induction (balanced_start rules host grid generator)
    (fun _ _ _ heffect hbefore => balanced_of_effect heffect hbefore) h
  have hrules : s.rules = rules := rules_of_run h
  have hsize : s.grid.size = n := hbalanced.size_eq.trans (Grid.tabulate_eq_ok hgrid).1
  refine ⟨?_, ?_, ?_⟩
  · intro call
    obtain ⟨turn, hturn⟩ := hasResult_perform hpaced (by rw [hrules]; exact hphase)
      (by rw [hrules]; exact hticks) (by rw [hsize]; exact hids) call
    obtain ⟨rfl, heffect, -⟩ := effect_of_perform hpaced hturn
    refine ⟨turn, hturn, ?_⟩
    rw [(balanced_of_effect heffect hbalanced).score_eq]
    exact Nat.min_le_right _ _
  · intro p hp
    have hplace : p.index s.grid.size < s.grid.size * s.grid.size := Pos.index_lt hp
    rw [hsize] at hplace ⊢
    exact Nat.lt_trans hplace (Grid.size_mul_size_lt hgrid)
  · intro u _ value hvalue
    have hspan := u.start_lt_stop
    have hactive : u.IsActiveAt s.timeline.tick := by
      by_contra hnot
      unfold Transition.valueAt at hvalue
      split at hvalue
      · cases hvalue
      · rw [if_neg hnot] at hvalue
        cases hvalue
    exact ⟨hactive.1, hspan, Nat.sub_le_sub_right hactive.2 _⟩

/-- In the short game, at the tick at which the second column is refilled and tallied, every call
has a result. -/
theorem perform_of_room_shortGame :
    Grid.tabulate 2 crossedColor = .ok crossedGrid ∧
      ∃ turns s, shortGame.run (shortCalls.take 10) = .ok (turns, s) ∧
        s.timeline.due = [.refill ⟨1, 0⟩, .refill ⟨1, 1⟩, .tally 1] ∧
        ∀ call, ∃ turn, s.perform call = .ok turn ∧ turn.after.score ≤ Score.limit := by
  have hgrid : Grid.tabulate 2 crossedColor = .ok crossedGrid := rfl
  obtain ⟨⟨turns, s⟩, hrun, hend⟩ := exists_of_any_toOption
    (x := shortGame.run (shortCalls.take 10))
    (fun (_, s) => decide (s.timeline.due = [.refill ⟨1, 0⟩, .refill ⟨1, 1⟩, .tally 1] ∧
      s.timeline.tick + 3 * 1 < Count.limit ∧ s.grid.nextId + 2 * 2 * 2 < Count.limit))
    (by decide +kernel)
  obtain ⟨hdue, hticks, hids⟩ := of_decide_eq_true hend
  exact ⟨hgrid, turns, s, hrun, hdue, (perform_of_room hgrid (by decide) hrun hticks hids).1⟩

end Session

end OrbPuzzle
