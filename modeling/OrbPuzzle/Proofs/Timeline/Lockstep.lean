import OrbPuzzle.Proofs.Grid.Identity
import OrbPuzzle.Proofs.Lockstep
import OrbPuzzle.Proofs.Timeline.Pending

/-!
# Boards and timelines in lockstep

Two games that are played side by side keep boards with the same faces, and timelines that differ by
a fixed number of ticks. Where tiles are shown may differ, unless the games are compared strictly:
then the boards are equal and motions run between the same values. Both kinds of comparison are one
relation here, with a parameter `strict` for the second.

* `Grid.InStep`: what looks up, writes, moves and makes tiles keeps boards in step.
* `Transition.InStep`, `Timeline.InStep`: so does playing a tick, which hands out the same commands.
-/

namespace OrbPuzzle

variable {lag : Nat} {strict : Prop}

/-! ## Boards -/

namespace Grid

theorem SameFaces.symm {g h : Grid} (same : SameFaces g h) : SameFaces h g where
  size_eq := same.size_eq.symm
  faces_eq := same.faces_eq.symm
  nextId_eq := same.nextId_eq.symm

/-- Two boards with the same faces, and equal boards if they are compared strictly. -/
structure InStep (strict : Prop) (g h : Grid) : Prop extends SameFaces g h where
  eq_of_strict : strict → h = g

theorem InStep.refl (strict : Prop) (g : Grid) : InStep strict g g :=
  ⟨SameFaces.refl g, fun _ => rfl⟩

variable {g h : Grid}

theorem InStep.within_iff (same : InStep strict g h) (p : Pos) :
    p.Within h.size ↔ p.Within g.size := by
  rw [same.size_eq]

/-- In the same place of storage stand tiles with the same face. -/
theorem InStep.face_getElem (same : InStep strict g h) {i : Nat} (hi : i < g.tiles.size)
    (hi' : i < h.tiles.size) : h.tiles[i].face = g.tiles[i].face := by
  have hface : h.faces[i]? = g.faces[i]? := by rw [same.faces_eq]
  simpa [faces, hi, hi'] using hface

/-- A cell is found on both boards, in the same place of storage, or on neither. -/
theorem InStep.slot (same : InStep strict g h) (p : Pos) :
    (∃ e, g.slot p = .error e ∧ h.slot p = .error e) ∨
      ∃ i j, g.slot p = .ok i ∧ h.slot p = .ok j ∧ j.val = i.val := by
  by_cases hp : p.Within g.size
  · obtain ⟨i, hi⟩ := slot_eq_ok_of_within hp
    obtain ⟨j, hj⟩ := slot_eq_ok_of_within ((same.within_iff p).mpr hp)
    refine .inr ⟨i, j, hi, hj, ?_⟩
    rw [slot_eq_ok hi, slot_eq_ok hj, same.size_eq]
  · refine .inl ⟨⟨p, g.size⟩, slot_of_not_within hp, ?_⟩
    rw [slot_of_not_within (mt (same.within_iff p).mp hp), same.size_eq]

/-- On a cell of both boards stand tiles with the same face. -/
theorem InStep.tileAt (same : InStep strict g h) (p : Pos) :
    (∃ e, g.tileAt p = .error e ∧ h.tileAt p = .error e) ∨
      ∃ tile tile', g.tileAt p = .ok tile ∧ h.tileAt p = .ok tile' ∧ tile'.face = tile.face ∧
        (strict → tile' = tile) := by
  obtain ⟨e, hg, hh⟩ | ⟨i, ⟨_, hj⟩, hg, hh, rfl⟩ := same.slot p
  · refine .inl ⟨e, ?_, ?_⟩
    · rw [Grid.tileAt, hg]
      rfl
    · rw [Grid.tileAt, hh]
      rfl
  · refine .inr ⟨g.tiles[i.val], h.tiles[i.val], ?_, ?_, same.face_getElem i.isLt hj, ?_⟩
    · rw [Grid.tileAt, hg]
      rfl
    · rw [Grid.tileAt, hh]
      rfl
    · intro hstrict
      obtain rfl := same.eq_of_strict hstrict
      rfl

/-- Writing to both boards keeps them in step; for a strict comparison the values have to agree. -/
theorem InStep.write (same : InStep strict g h) (id : TileId) (field : Field)
    {value value' : Single} (hvalue : strict → value' = value) :
    InStep strict (g.write id field value) (h.write id field value') where
  toSameFaces := ((g.sameFaces_write id field value).symm.trans same.toSameFaces).trans
    (h.sameFaces_write id field value')
  eq_of_strict := by
    intro hstrict
    rw [same.eq_of_strict hstrict, hvalue hstrict]

/-- Exchanging the tiles of two cells keeps boards in step. -/
theorem InStep.swap (same : InStep strict g h) (a b : Pos) :
    (∃ e, g.swap a b = .error e ∧ h.swap a b = .error e) ∨
      ∃ k k', g.swap a b = .ok k ∧ h.swap a b = .ok k' ∧ InStep strict k k' := by
  obtain ⟨e, hg, hh⟩ | ⟨i, ⟨i', hi'⟩, hg, hh, rfl⟩ := same.slot a
  · refine .inl ⟨e, ?_, ?_⟩
    · rw [Grid.swap, hg]
      rfl
    · rw [Grid.swap, hh]
      rfl
  · obtain ⟨e, hg', hh'⟩ | ⟨j, ⟨j', hj'⟩, hg', hh', rfl⟩ := same.slot b
    · refine .inl ⟨e, ?_, ?_⟩
      · rw [Grid.swap, hg, hg']
        rfl
      · rw [Grid.swap, hh, hh']
        rfl
    · refine .inr ⟨_, _, bind_eq_ok_iff.mpr ⟨i, hg, bind_eq_ok_iff.mpr ⟨j, hg', rfl⟩⟩,
        bind_eq_ok_iff.mpr ⟨_, hh, bind_eq_ok_iff.mpr ⟨_, hh', rfl⟩⟩, ⟨same.size_eq, ?_, ?_⟩, ?_⟩
      · apply Array.ext
        · simp [faces, h.tiles_size, g.tiles_size, same.size_eq]
        · -- each place gets its tile from the same place of its own board
          intro k hk hk'
          simp only [faces, Array.getElem_map, Array.getElem_swap]
          split
          · exact same.face_getElem _ _
          · split
            · exact same.face_getElem _ _
            · exact same.face_getElem _ _
      · exact same.nextId_eq
      · intro hstrict
        obtain rfl := same.eq_of_strict hstrict
        rfl

theorem face_restingTile (size : Nat) (id : TileId) (p : Pos) (color : Color) :
    (restingTile size id p color).face = (id, color) := rfl

/-- Replacing the tile of a cell by a new one keeps boards in step, and gives it the same id. -/
theorem InStep.respawn (same : InStep strict g h) (p : Pos) (color : Color) :
    Follows lag (fun answer answer' =>
      (∃ e, answer = .error e ∧ answer' = .error e) ∨
        ∃ id k k', answer = .ok (id, k) ∧ answer' = .ok (id, k') ∧ InStep strict k k')
      (g.respawn p color) (h.respawn p color) := by
  unfold Grid.respawn
  obtain ⟨e, hg, hh⟩ | ⟨i, ⟨i', hi'⟩, hg, hh, rfl⟩ := same.slot p
  · rw [hg, hh]
    exact .ok (.inl ⟨e, rfl, rfl⟩)
  · rw [hg, hh, same.nextId_eq]
    refine (follows_add_same g.nextId 1).bind ?_
    rintro nextId _ - - ⟨-, rfl⟩
    refine .ok (.inr ⟨g.nextId, _, _, rfl, rfl, ⟨same.size_eq, ?_, rfl⟩, ?_⟩)
    · apply Array.ext
      · simp [faces, setSlot, h.tiles_size, g.tiles_size, same.size_eq]
      · intro k hk hk'
        simp only [faces, setSlot, Array.getElem_map, Array.getElem_set]
        split
        · rw [face_restingTile, face_restingTile]
        · exact same.face_getElem _ _
    · intro hstrict
      obtain rfl := same.eq_of_strict hstrict
      rfl

end Grid

/-! ## Transitions -/

/-- What a motion moves and how, without the values between which it runs. -/
def Motion.path (m : Motion) : TileId × Field × Easing := (m.tile, m.field, m.easing)

/-- Two transitions that differ by a number of ticks and in the values between which they run; for
a strict comparison these are the same. -/
structure Transition.InStep {κ : Type} (lag : Nat) (strict : Prop) (t u : Transition κ) : Prop where
  start_eq : u.start = t.start + lag
  stop_eq : u.stop = t.stop + lag
  onDone_eq : u.onDone = t.onDone
  path_eq : u.motion.map Motion.path = t.motion.map Motion.path
  motion_eq : strict → u.motion = t.motion

namespace Transition

variable {κ : Type} {t u : Transition κ}

/-- Transitions that are asked for in step are made, and are in step. -/
theorem follows_make (strict : Prop) {start stop start' stop' : Nat}
    {motion motion' : Option Motion} (onDone : Option κ) (hspan : start < stop)
    (hstart : start' = start + lag) (hstop : stop' = stop + lag)
    (hpath : motion'.map Motion.path = motion.map Motion.path)
    (hmotion : strict → motion' = motion) :
    Follows lag (InStep lag strict) (make start stop motion onDone)
      (make start' stop' motion' onDone) := by
  have hspan' : start' < stop' := by omega
  unfold make
  rw [dif_pos hspan, dif_pos hspan']
  exact .ok ⟨hstart, hstop, rfl, hpath, hmotion⟩

theorem InStep.isActiveAt_iff (same : InStep lag strict t u) (tick : Nat) :
    u.IsActiveAt (tick + lag) ↔ t.IsActiveAt tick := by
  unfold IsActiveAt
  rw [same.start_eq, same.stop_eq, Nat.add_le_add_iff_right, Nat.add_le_add_iff_right]

/-- The same part of the span has passed. -/
theorem InStep.elapsed_eq (same : InStep lag strict t u) (tick : Nat) :
    u.elapsed (tick + lag) = t.elapsed tick := by
  unfold elapsed
  rw [same.start_eq, same.stop_eq, Nat.add_sub_add_right, Nat.add_sub_add_right]

/-- Transitions in step hand out the same command, each at its own tick. -/
theorem InStep.dueAt_eq (same : InStep lag strict t u) (tick : Nat) :
    u.dueAt (tick + lag) = t.dueAt tick := by
  unfold dueAt
  simp only [same.stop_eq, same.onDone_eq, Nat.add_right_cancel_iff]

theorem InStep.played (same : InStep lag strict t u) (tick : Nat) :
    InStep lag strict (t.played tick) (u.played (tick + lag)) := by
  have hstop : u.stop = tick + lag ↔ t.stop = tick := by
    rw [same.stop_eq, Nat.add_right_cancel_iff]
  unfold Transition.played
  by_cases hends : t.stop = tick
  · rw [if_pos hends, if_pos (hstop.mpr hends)]
    exact ⟨same.start_eq, same.stop_eq, rfl, same.path_eq, same.motion_eq⟩
  · rw [if_neg hends, if_neg (mt hstop.mp hends)]
    exact same

end Transition

/-! ## Timelines -/

namespace Timeline

variable {κ : Type}

/-- Two timelines that differ by a number of ticks, with transitions that are in step. -/
structure InStep (lag : Nat) (strict : Prop) (t u : Timeline κ) : Prop where
  tick_eq : u.tick = t.tick + lag
  active : List.Forall₂ (Transition.InStep lag strict) t.active u.active

variable {t u : Timeline κ}

theorem InStep.isIdle_eq (same : InStep lag strict t u) : u.isIdle = t.isIdle := by
  have hactive := same.active
  unfold isIdle
  generalize t.active = first, u.active = second at hactive
  cases hactive with
  | nil => rfl
  | cons _ _ => rfl

theorem InStep.append (same : InStep lag strict t u) {added added' : List (Transition κ)}
    (hadded : List.Forall₂ (Transition.InStep lag strict) added added') :
    InStep lag strict (t.append added) (u.append added') :=
  ⟨same.tick_eq, List.rel_append same.active hadded⟩

/-- A transition and one in step with it write to the same tile and field, or neither writes. -/
theorem inStep_writeTo {g h : Grid} (tick : Nat) {a b : Transition κ} (same : g.InStep strict h)
    (hab : Transition.InStep lag strict a b) :
    (writeTo tick g a).InStep strict (writeTo (tick + lag) h b) := by
  have hpath := hab.path_eq
  have hmotion := hab.motion_eq
  unfold writeTo Transition.valueAt
  cases ha : a.motion with
  | none =>
    obtain hb : b.motion = none := by simpa [ha] using hpath
    rw [hb]
    exact same
  | some m =>
    obtain ⟨m', hb, hm⟩ : ∃ m', b.motion = some m' ∧ m'.path = m.path := by simpa [ha] using hpath
    obtain ⟨htile, hfield, -⟩ : m'.tile = m.tile ∧ m'.field = m.field ∧ m'.easing = m.easing := by
      simpa [Motion.path] using hm
    by_cases hactive : a.IsActiveAt tick
    · have hactive' : b.IsActiveAt (tick + lag) := (hab.isActiveAt_iff tick).mpr hactive
      simp only [hb, if_pos hactive, if_pos hactive', htile, hfield]
      -- the values are those of the two motions, which are only known to agree if strict
      refine same.write m.tile m.field ?_
      intro hstrict
      obtain rfl : m' = m := by simpa [ha, hb] using hmotion hstrict
      rw [hab.elapsed_eq]
    · have hactive' : ¬ b.IsActiveAt (tick + lag) := mt (hab.isActiveAt_iff tick).mp hactive
      simp only [hb, if_neg hactive, if_neg hactive']
      exact same

/-- Playing a tick keeps boards in step. -/
theorem InStep.animate (same : InStep lag strict t u) {g h : Grid} (hgrid : g.InStep strict h) :
    (t.animate g).InStep strict (u.animate h) := by
  unfold Timeline.animate
  rw [same.tick_eq]
  refine List.rel_foldl ?_ hgrid same.active
  intro g h hgrid a b hab
  exact inStep_writeTo t.tick hgrid hab

/-- Playing a tick keeps timelines in step. -/
theorem InStep.played (same : InStep lag strict t u) : InStep lag strict t.played u.played := by
  refine ⟨same.tick_eq, ?_⟩
  unfold Timeline.played
  rw [same.tick_eq]
  refine List.rel_map (fun a b hab => hab.played t.tick) (List.rel_filter ?_ same.active)
  intro a b hab
  simp only [decide_eq_true_eq, hab.stop_eq, Nat.add_le_add_iff_right]

/-- Timelines in step hand out the same commands. -/
theorem InStep.due_eq (same : InStep lag strict t u) : u.due = t.due := by
  have hactive := same.active
  unfold due
  rw [same.tick_eq]
  generalize t.active = first, u.active = second at hactive
  induction hactive with
  | nil => rfl
  | cons hab _ ih => rw [List.filterMap_cons, List.filterMap_cons, hab.dueAt_eq, ih]

theorem InStep.advance (same : InStep lag strict t u) :
    Follows lag (InStep lag strict) t.advance u.advance := by
  unfold Timeline.advance
  rw [same.tick_eq]
  refine (follows_add t.tick 1).bind ?_
  rintro tick tick' - - ⟨-, htick⟩
  exact .ok ⟨htick, same.active⟩

end Timeline

end OrbPuzzle
