import OrbPuzzle.Proofs.Session.Operations

/-!
# Tiles keep their identity

Courses name their tile by id and outlive it: lines that cross, and swaps and clearings that are
asked for directly, leave courses for tiles that are gone. No harm comes of it, because an id is
given once. The next id is above every id on the board and above every id that a course names
(`Numbered`), so a new tile is met by no course that is older than itself.

`Since` says what can have happened to a tile since it was put on the board: every course that is in
progress for it, or has written to it, was added after it was made, and what has not been written is
as it was. Both are kept by every change, and so along every run of operations.
-/

namespace OrbPuzzle.Session

variable {σ : Type} [Store σ]

/-! ## Ids are given once -/

/-- The board has a given size, its tiles have distinct ids, and the next id is above all of them
and above all that are named by courses. -/
structure Numbered (size : Nat) (s : Session σ) : Prop where
  size_eq : s.grid.size = size
  nodup : s.grid.ids.Nodup
  lt_nextId : ∀ id ∈ s.grid.ids, id < s.grid.nextId
  course_lt : ∀ c ∈ s.timeline.courses, c.motion.tile < s.grid.nextId

variable {size : Nat} {s t : Session σ} {events more : List Event}

theorem numbered_start {grid : Grid} {color : Pos → Color}
    (h : Grid.tabulate size color = .ok grid) (rules : Rules) (host : Host σ)
    (generator : Generator) : Numbered size (start rules host grid generator) := by
  obtain ⟨hsize, hnextId⟩ := Grid.tabulate_eq_ok h
  have hids := Grid.ids_tabulate h
  refine ⟨hsize, ?_, ?_, fun _ hc => nomatch hc⟩
  · show grid.ids.Nodup
    rw [hids]
    exact List.nodup_range
  · intro id hid
    replace hid : id ∈ grid.ids := hid
    rw [hids, List.mem_range] at hid
    exact Nat.lt_of_lt_of_eq hid hnextId.symm

/-- Nothing takes an id back, and a new id is the next one. -/
theorem Numbered.change (h : Numbered size s) (hchange : Change s events t) :
    Numbered size t ∧ s.grid.nextId ≤ t.grid.nextId ∧
      ∀ id ∈ t.grid.ids, id ∈ s.grid.ids ∨ s.grid.nextId ≤ id := by
  obtain ⟨hsize, hnodup, hlt, hcourse⟩ := h
  cases hchange with
  | play =>
    have same := s.timeline.sameFaces_animate s.grid
    have hids : s.animated.grid.ids = s.grid.ids := same.ids_eq
    have hnextId : s.animated.grid.nextId = s.grid.nextId := same.nextId_eq
    refine ⟨⟨same.size_eq.trans hsize, ?_, ?_, ?_⟩, Nat.le_of_eq hnextId.symm, ?_⟩
    · rw [hids]
      exact hnodup
    · rw [hids, hnextId]
      exact hlt
    · intro c hc
      rw [hnextId]
      replace hc : c ∈ s.timeline.played.courses := hc
      rw [Timeline.courses_played] at hc
      exact hcourse c (List.mem_of_mem_filter hc)
    · intro id hid
      rw [hids] at hid
      exact .inl hid
  | append present =>
    refine ⟨⟨hsize, hnodup, hlt, ?_⟩, Nat.le_refl _, fun _ hid => .inl hid⟩
    intro c hc
    rw [Timeline.courses_append, List.mem_append] at hc
    rcases hc with hc | hc
    · exact hcourse c hc
    · exact hlt _ (present c hc)
  | exchange swap =>
    have hperm := Grid.ids_swap_perm swap
    obtain ⟨hsize', hnextId⟩ := Grid.swap_eq_ok swap
    refine ⟨⟨hsize'.trans hsize, hperm.nodup_iff.mpr hnodup, ?_, ?_⟩, Nat.le_of_eq hnextId.symm, ?_⟩
    · intro id hid
      rw [hnextId]
      exact hlt id (hperm.mem_iff.mp hid)
    · intro c hc
      rw [hnextId]
      exact hcourse c hc
    · intro id hid
      exact .inl (hperm.mem_iff.mp hid)
  | @respawn pos color grid tile respawn tileAt =>
    obtain ⟨hid, hsize', hnextId, i, htiles⟩ := Grid.tiles_of_respawn respawn tileAt
    have hids : grid.ids = s.grid.ids.set i s.grid.nextId := by
      simp only [Grid.ids, htiles, Array.toList_set, List.map_set, hid]
    have hfresh : s.grid.nextId ∉ s.grid.ids := fun hmem => Nat.lt_irrefl _ (hlt _ hmem)
    have hmem : ∀ id ∈ grid.ids, id ∈ s.grid.ids ∨ id = s.grid.nextId := by
      intro id hid
      rw [hids] at hid
      exact List.mem_or_eq_of_mem_set hid
    refine ⟨⟨hsize'.trans hsize, ?_, ?_, ?_⟩, ?_, ?_⟩
    · show grid.ids.Nodup
      rw [hids]
      exact hnodup.set hfresh
    · intro id hid
      show id < grid.nextId
      rw [hnextId]
      rcases hmem id hid with hold | rfl
      · exact Nat.lt_succ_of_lt (hlt id hold)
      · exact Nat.lt_succ_self _
    · intro c hc
      show c.motion.tile < grid.nextId
      rw [hnextId]
      exact Nat.lt_succ_of_lt (hcourse c hc)
    · show s.grid.nextId ≤ grid.nextId
      rw [hnextId]
      exact Nat.le_succ _
    · intro id hid
      exact (hmem id hid).imp_right (fun heq => Nat.le_of_eq heq.symm)
  | score lines =>
    obtain ⟨highScore, host, hscored⟩ := s.addScore_eq lines
    rw [hscored]
    exact ⟨⟨hsize, hnodup, hlt, hcourse⟩, Nat.le_refl _, fun _ hid => .inl hid⟩
  | pass tick selected generator =>
    exact ⟨⟨hsize, hnodup, hlt, hcourse⟩, Nat.le_refl _, fun _ hid => .inl hid⟩

theorem Numbered.changes (h : Numbered size s) (hchanges : Changes s events t) :
    Numbered size t ∧ s.grid.nextId ≤ t.grid.nextId ∧
      ∀ id ∈ t.grid.ids, id ∈ s.grid.ids ∨ s.grid.nextId ≤ id := by
  induction hchanges with
  | refl => exact ⟨h, Nat.le_refl _, fun _ hid => .inl hid⟩
  | tail _ last ih =>
    obtain ⟨hmiddle, hle, hids⟩ := ih
    obtain ⟨hlast, hle', hids'⟩ := hmiddle.change last
    refine ⟨hlast, Nat.le_trans hle hle', ?_⟩
    intro id hid
    rcases hids' id hid with hid | hid
    · exact hids id hid
    · exact .inr (Nat.le_trans hle hid)

/-- Every game that a run leads to is numbered. -/
theorem numbered_of_run {calls : List Call} {turns : List (Turn σ)} (hs : Numbered size s)
    (h : s.run calls = .ok (turns, t)) : Numbered size t := by
  refine runAll_induction (motive := fun _ t => Numbered size t) hs ?_ h
  intro _ t call turn ht hturn
  exact (ht.changes (changes_of_perform hturn)).1

/-! ## What happens to a tile -/

/-- What can have happened since a tile was put on the board. -/
structure Since (tile : Tile) (since : List Event) (s : Session σ) : Prop where
  given : tile.id < s.grid.nextId
  /-- A course in progress for the tile was added since. -/
  added : ∀ c ∈ s.timeline.courses, c.motion.tile = tile.id → .push c ∈ since
  /-- A course that has written to the tile was added before that. -/
  addedBefore : ∀ between c after, since = between ++ .write c :: after →
    c.motion.tile = tile.id → .push c ∈ between
  /-- A field that has not been written is as it was. -/
  kept : ∀ field, (∀ c, .write c ∈ since → ¬ c.Moves tile.id field) →
    ∀ now ∈ s.grid.tiles, now.id = tile.id → now.get field = tile.get field

omit [Store σ] in
/-- Nothing has happened to a tile that was just made: no course names its id. -/
theorem Numbered.since_nil (h : Numbered size s) {pos : Pos} {color : Color} {grid : Grid}
    {tile : Tile} (respawn : s.grid.respawn pos color = .ok (.ok (s.grid.nextId, grid)))
    (tileAt : grid.tileAt pos = .ok tile) : Since tile [] { s with grid } := by
  obtain ⟨hid, -, hnextId, i, htiles⟩ := Grid.tiles_of_respawn respawn tileAt
  refine ⟨?_, ?_, by simp, ?_⟩
  · show tile.id < grid.nextId
    rw [hid, hnextId]
    exact Nat.lt_succ_self _
  · intro c hc htile
    have hlt := h.course_lt c hc
    rw [htile, hid] at hlt
    exact absurd hlt (Nat.lt_irrefl _)
  · intro field _ now hnow hsame
    replace hnow : now ∈ grid.tiles := hnow
    rw [htiles] at hnow
    rcases Array.mem_or_eq_of_mem_set hnow with hold | rfl
    · have hlt := h.lt_nextId now.id (Grid.mem_ids.mpr ⟨now, hold, rfl⟩)
      rw [hsame, hid] at hlt
      exact absurd hlt (Nat.lt_irrefl _)
    · rfl

/-- What a change leaves of the courses and of the tiles that are already there: a course is in
progress only if it was before or is added now, only courses in progress write, and a field that
none of them writes keeps its value. -/
theorem Numbered.frame (h : Numbered size s) (hchange : Change s more t) :
    (∀ c ∈ t.timeline.courses, c ∈ s.timeline.courses ∨ .push c ∈ more) ∧
      (∀ c, .write c ∈ more → c ∈ s.timeline.courses) ∧
      ∀ now ∈ t.grid.tiles, now.id < s.grid.nextId →
        ∃ old ∈ s.grid.tiles, old.id = now.id ∧
          ∀ field, (∀ c, .write c ∈ more → ¬ c.Moves now.id field) →
            now.get field = old.get field := by
  cases hchange with
  | play =>
    refine ⟨?_, ?_, ?_⟩
    · intro c hc
      replace hc : c ∈ s.timeline.played.courses := hc
      rw [Timeline.courses_played] at hc
      exact .inl (List.mem_of_mem_filter hc)
    · intro c hc
      obtain ⟨c', hc', heq⟩ := List.mem_map.mp hc
      cases heq
      exact List.mem_of_mem_filter hc'
    · intro now hnow _
      replace hnow : now ∈ (s.timeline.animate s.grid).tiles := hnow
      rw [Timeline.tiles_animate _ h.nodup] at hnow
      obtain ⟨old, hold, rfl⟩ := Array.mem_map.mp hnow
      have hid := (Timeline.foldl_shift s.timeline.tick s.timeline.courses old .scale).1
      refine ⟨old, hold, hid.symm, ?_⟩
      intro field hunwritten
      rw [hid] at hunwritten
      apply Timeline.get_foldl_shift_of_forall_not
      intro c hc hactive
      refine hunwritten c (List.mem_map_of_mem (List.mem_filter.mpr ⟨hc, ?_⟩))
      exact decide_eq_true hactive
  | append present =>
    refine ⟨?_, ?_, fun now hnow _ => ⟨now, hnow, rfl, fun _ _ => rfl⟩⟩
    · intro c hc
      rw [Timeline.courses_append, List.mem_append] at hc
      exact hc.imp_right (List.mem_map_of_mem ·)
    · simp
  | exchange swap =>
    refine ⟨fun c hc => .inl hc, by simp, ?_⟩
    intro now hnow _
    exact ⟨now, (Grid.tiles_swap_perm swap).mem_iff.mp hnow, rfl, fun _ _ => rfl⟩
  | @respawn pos color grid tile respawn tileAt =>
    obtain ⟨hid, -, -, i, htiles⟩ := Grid.tiles_of_respawn respawn tileAt
    refine ⟨fun c hc => .inl hc, by simp, ?_⟩
    intro now hnow hlt
    replace hnow : now ∈ grid.tiles := hnow
    rw [htiles] at hnow
    rcases Array.mem_or_eq_of_mem_set hnow with hold | rfl
    · exact ⟨now, hold, rfl, fun _ _ => rfl⟩
    · rw [hid] at hlt
      exact absurd hlt (Nat.lt_irrefl _)
  | score lines =>
    obtain ⟨highScore, host, hscored⟩ := s.addScore_eq lines
    rw [hscored]
    exact ⟨fun c hc => .inl hc, by simp, fun now hnow _ => ⟨now, hnow, rfl, fun _ _ => rfl⟩⟩
  | pass tick selected generator =>
    exact ⟨fun c hc => .inl hc, by simp, fun now hnow _ => ⟨now, hnow, rfl, fun _ _ => rfl⟩⟩

/-- An element of two lists one after the other is found in the first or in the second. -/
theorem split_of_append_eq {α : Type} {xs ys before after : List α} {x : α}
    (h : xs ++ ys = before ++ x :: after) :
    (∃ rest, xs = before ++ x :: rest ∧ after = rest ++ ys) ∨
      ∃ rest, before = xs ++ rest ∧ ys = rest ++ x :: after := by
  rcases List.append_eq_append_iff.mp h with ⟨rest, hbefore, hys⟩ | ⟨rest, hxs, hafter⟩
  · exact .inr ⟨rest, hbefore, hys⟩
  · cases rest with
    | nil => exact .inr ⟨[], by simpa using hxs.symm, hafter.symm⟩
    | cons y rest =>
      cases hafter
      exact .inl ⟨rest, hxs, rfl⟩

theorem Since.change {tile : Tile} {since : List Event} (h : Since tile since s)
    (hs : Numbered size s) (hchange : Change s more t) : Since tile (since ++ more) t := by
  obtain ⟨hcourses, hwrites, htiles⟩ := hs.frame hchange
  obtain ⟨-, hle, -⟩ := hs.change hchange
  refine ⟨Nat.lt_of_lt_of_le h.given hle, ?_, ?_, ?_⟩
  · intro c hc htile
    rw [List.mem_append]
    exact (hcourses c hc).imp_left (h.added c · htile)
  · intro between c after heq htile
    obtain ⟨rest, hsince, -⟩ | ⟨rest, rfl, hmore⟩ := split_of_append_eq heq
    · exact h.addedBefore between c rest hsince htile
    · -- a course that writes now was in progress, and so it was added since
      have hwrite : .write c ∈ more := by
        rw [hmore]
        exact List.mem_append_right _ List.mem_cons_self
      exact List.mem_append_left _ (h.added c (hwrites c hwrite) htile)
  · intro field hunwritten now hnow hid
    obtain ⟨old, hold, hsame, hget⟩ := htiles now hnow (hid ▸ h.given)
    rw [hget field ?_, h.kept field ?_ old hold (hsame.trans hid)]
    · exact fun c hc => hunwritten c (List.mem_append_left _ hc)
    · rw [hid]
      exact fun c hc => hunwritten c (List.mem_append_right _ hc)

/-- Along every chain of changes, what follows the making of a tile is told by `Since`. -/
theorem Numbered.since (h : Numbered size s) (hchanges : Changes s events t) :
    ∀ earlier tile later, events = earlier ++ .create tile :: later → Since tile later t := by
  induction hchanges with
  | refl => simp
  | @tail events more t u first last ih =>
    have hmiddle := (h.changes first).1
    intro earlier tile later heq
    obtain ⟨rest, hevents, rfl⟩ | ⟨rest, -, hmore⟩ := split_of_append_eq heq
    · exact (ih earlier tile rest hevents).change hmiddle last
    · -- only a respawn makes a tile, and it does nothing else
      have hcreate : .create tile ∈ more := by
        rw [hmore]
        exact List.mem_append_right _ List.mem_cons_self
      cases last with
      | respawn respawn tileAt =>
        obtain ⟨rfl, hsingle⟩ | ⟨_, -, hnil⟩ := List.cons_eq_append_iff.mp hmore
        · cases hsingle
          exact hmiddle.since_nil respawn tileAt
        · simp at hnil
      | play =>
        obtain ⟨_, -, heq⟩ := List.mem_map.mp hcreate
        cases heq
      | append present =>
        obtain ⟨_, -, heq⟩ := List.mem_map.mp hcreate
        cases heq
      | exchange swap => cases hcreate
      | score lines => cases hcreate
      | pass tick selected generator => cases hcreate

/-! ## Every run -/

/-- Whatever is asked of a game, its board keeps its number of tiles, their ids are distinct and
below the next id, and no transition names an id that is not below it. So an id that was on the
board, or has been given at all, and is off the board after an act never comes back. And what writes
to a tile since it was put on the board was added after that: until then its centre and scale are
those it was made with. -/
theorem identity_of_operations {n : Nat} {color : Pos → Color} {rules : Rules} {host : Host σ}
    {grid : Grid} {generator : Generator} {operations : List Operation} {acts : List (Act σ)}
    (hgrid : Grid.tabulate n color = .ok grid)
    (h : (start rules host grid generator).runOperations operations = .ok (acts, s)) :
    s.grid.tiles.size = n * n ∧ s.grid.ids.Nodup ∧ (∀ id ∈ s.grid.ids, id < s.grid.nextId) ∧
      (∀ u ∈ s.timeline.active, ∀ m, u.motion = some m → m.tile < s.grid.nextId) ∧
      (∀ act ∈ acts, ∀ id, id ∈ act.before.grid.ids ∨ id < act.after.grid.nextId →
        id ∉ act.after.grid.ids → id ∉ s.grid.ids) ∧
      ∀ earlier tile later, acts.flatMap Act.events = earlier ++ .create tile :: later →
        (∀ between c after, later = between ++ .write c :: after →
          c.motion.tile = tile.id → .push c ∈ between) ∧
        ∀ field, (∀ c, .write c ∈ later → ¬ c.Moves tile.id field) →
          ∀ now ∈ s.grid.tiles, now.id = tile.id → now.get field = tile.get field := by
  have hstart := numbered_start hgrid rules host generator
  have hchanges := changes_of_runOperations h
  obtain ⟨hsize, hnodup, hlt, hcourse⟩ := (hstart.changes hchanges).1
  refine ⟨?_, hnodup, hlt, ?_, ?_, ?_⟩
  · rw [s.grid.tiles_size, hsize]
  · intro u hu m hm
    have hc : (⟨u.start, u.stop, m⟩ : Course) ∈ s.timeline.courses := by
      refine List.mem_filterMap.mpr ⟨u, hu, ?_⟩
      rw [Transition.course?, hm]
      rfl
    exact hcourse _ hc
  · intro act hact id hgiven hgone hback
    obtain ⟨before, after, rfl⟩ := List.append_of_mem hact
    obtain ⟨hbefore, hact, hafter⟩ := changes_around_act h
    have hnumbered := (hstart.changes hbefore).1
    obtain ⟨hnumbered', hle, -⟩ := hnumbered.changes hact
    obtain ⟨-, -, hids⟩ := hnumbered'.changes hafter
    have hid : id < act.after.grid.nextId := by
      rcases hgiven with hmem | hid
      · exact Nat.lt_of_lt_of_le (hnumbered.lt_nextId id hmem) hle
      · exact hid
    rcases hids id hback with hmem | hnew
    · exact hgone hmem
    · exact absurd hid (Nat.not_lt.mpr hnew)
  · intro earlier tile later hevents
    have hsince := hstart.since hchanges earlier tile later hevents
    exact ⟨hsince.addedBefore, hsince.kept⟩

/-- Whether an event writes to a tile. -/
def Event.writesTo (tile : TileId) : Event → Bool
  | .write c => c.motion.tile = tile
  | _ => false

/-- A swap is asked for, and one of its tiles is replaced at once. -/
def staleOperations : List Operation :=
  .swap ⟨0, 0⟩ ⟨0, 1⟩ :: .execute (.refill ⟨0, 1⟩) :: List.replicate 3 (.call .update)

/-- The tile that takes its place in the short game. -/
def replacement : Tile := Grid.restingTile 2 4 ⟨0, 1⟩ (Color.random ⟨0⟩).1

/-- The courses of the old tile run on and leave the new one alone. -/
theorem identity_of_operations_staleOperations :
    Grid.tabulate 2 crossedColor = .ok crossedGrid ∧
      ∃ acts s earlier later, shortGame.runOperations staleOperations = .ok (acts, s) ∧
        acts.flatMap Act.events = earlier ++ .create replacement :: later ∧
        s.grid.ids = [1, 4, 2, 3] ∧
        ∀ field, ∀ now ∈ s.grid.tiles, now.id = 4 → now.get field = replacement.get field := by
  have hgrid : Grid.tabulate 2 crossedColor = .ok crossedGrid := rfl
  -- the swap adds seven courses, then the tile is made
  obtain ⟨⟨acts, s⟩, hrun, hend⟩ := exists_of_any_toOption
    (x := shortGame.runOperations staleOperations)
    (fun r => decide (r.2.grid.ids = [1, 4, 2, 3]) &&
      decide ((r.1.flatMap Act.events)[7]? = some (Event.create replacement)) &&
      ((r.1.flatMap Act.events).drop 8).all fun event => !event.writesTo 4) (by decide +kernel)
  simp only [Bool.and_eq_true, decide_eq_true_eq, List.all_eq_true, Bool.not_eq_true'] at hend
  obtain ⟨⟨hids, hcreated⟩, hothers⟩ := hend
  obtain ⟨hlt, hcreated⟩ := List.getElem?_eq_some_iff.mp hcreated
  have hevents : acts.flatMap Act.events = (acts.flatMap Act.events).take 7 ++
      .create replacement :: (acts.flatMap Act.events).drop 8 := by
    rw [← hcreated, ← List.drop_eq_getElem_cons hlt, List.take_append_drop]
  obtain ⟨-, -, -, -, -, hsince⟩ := identity_of_operations hgrid hrun
  refine ⟨hgrid, acts, s, _, _, hrun, hevents, hids, ?_⟩
  intro field now hnow hid
  refine (hsince _ _ _ hevents).2 field ?_ now hnow hid
  intro c hc hmoves
  exact of_decide_eq_false (hothers _ hc) hmoves.1

end OrbPuzzle.Session
