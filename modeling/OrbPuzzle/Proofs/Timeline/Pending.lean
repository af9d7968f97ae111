import OrbPuzzle.Proofs.Grid.Faces
import OrbPuzzle.Timeline

/-!
# Pending commands

The commands that a timeline has yet to hand out, each with the tick at which it is due, in the order
in which their transitions were added. This is all that the course of a game depends on: playing a
tick hands out the pending commands of that tick (`due_eq_pending`), leaves the later ones pending
(`pending_played`, and tick by tick `dueAt_played`), and changes no face of the board
(`sameFaces_animate`).
-/

namespace OrbPuzzle

variable {κ : Type}

/-- The command that a transition still holds, with the tick at which it is due. -/
def Transition.awaited (t : Transition κ) : Option (Nat × κ) := t.onDone.map (t.stop, ·)

/-- Playing a tick takes out the command of that tick and of no other. -/
theorem Transition.dueAt_played (u : Transition κ) (now tick : Nat) :
    (u.played now).dueAt tick = if now = tick then none else u.dueAt tick := by
  unfold played dueAt
  by_cases hstop : u.stop = now
  · by_cases htick : now = tick <;> simp [hstop, htick]
  · by_cases htick : now = tick
    · have hne : u.stop ≠ tick := by omega
      simp [htick, hne]
    · simp [hstop, htick]

namespace Timeline

/-- The commands still to be handed out, each with the tick at which it is due, in list order. -/
def pending (t : Timeline κ) : List (Nat × κ) := t.active.filterMap Transition.awaited

@[simp]
theorem pending_append (t : Timeline κ) (added : List (Transition κ)) :
    (t.append added).pending = t.pending ++ added.filterMap Transition.awaited := by
  simp only [pending, active_append, List.filterMap_append]

/-- A transition without a command adds nothing to wait for. -/
theorem pending_push_of_onDone_eq_none (t : Timeline κ) {added : Transition κ}
    (h : added.onDone = none) : (t.push added).pending = t.pending := by
  rw [push, pending_append]
  simp [Transition.awaited, h]

/-- Without transitions in progress nothing is pending. -/
theorem pending_of_isIdle {t : Timeline κ} (h : t.isIdle = true) : t.pending = [] := by
  unfold isIdle at h
  rw [pending, List.isEmpty_iff.mp h, List.filterMap_nil]

/-- Playing a tick hands out the commands that are pending for it, in order. -/
theorem due_eq_pending (t : Timeline κ) :
    t.due = (t.pending.filter (·.1 = t.tick)).map Prod.snd := by
  unfold due pending
  rw [List.filter_filterMap, List.map_filterMap]
  congr 1
  funext u
  rw [Transition.dueAt, Transition.awaited]
  cases u.onDone with
  | none => simp
  | some command => by_cases h : u.stop = t.tick <;> simp [h, Option.filter_some]

/-- After a tick has been played, the commands of later ticks are pending. -/
theorem pending_played (t : Timeline κ) : t.played.pending = t.pending.filter (t.tick < ·.1) := by
  unfold played pending
  rw [List.filterMap_map, List.filterMap_filter, List.filter_filterMap]
  congr 1
  funext u
  rw [Function.comp_apply, Transition.played, Transition.awaited, Transition.awaited]
  -- a transition ends before, at or after the tick; only the last kind keeps its command
  rcases Nat.lt_trichotomy u.stop t.tick with hlt | heq | hgt
  · have hnot : ¬ t.tick ≤ u.stop := by omega
    have hnot' : ¬ t.tick < u.stop := by omega
    cases u.onDone <;> simp [hnot, hnot', Option.filter_some]
  · rw [if_pos heq]
    cases u.onDone <;> simp [heq, Option.filter_some]
  · have hle : t.tick ≤ u.stop := by omega
    have hne : u.stop ≠ t.tick := by omega
    rw [if_neg hne]
    cases u.onDone <;> simp [hle, hgt, Option.filter_some]

/-! ## The commands of one tick -/

/-- The commands that a timeline would hand out at a tick. -/
def dueAt (t : Timeline κ) (tick : Nat) : List κ := t.active.filterMap (·.dueAt tick)

theorem dueAt_push (t : Timeline κ) (added : Transition κ) (tick : Nat) :
    (t.push added).dueAt tick = t.dueAt tick ++ (added.dueAt tick).toList := by
  rw [dueAt, push, active_append, List.filterMap_append, dueAt]
  cases h : added.dueAt tick <;> simp [h]

/-- Playing a tick takes out the commands of that tick, and keeps those of all later ones. -/
theorem dueAt_played (t : Timeline κ) {tick : Nat} (hle : t.tick ≤ tick) :
    t.played.dueAt tick = if t.tick = tick then [] else t.dueAt tick := by
  unfold dueAt played
  rw [List.filterMap_map, List.filterMap_filter]
  by_cases htick : t.tick = tick
  · rw [if_pos htick, List.filterMap_eq_nil_iff]
    intro u _
    simp [Transition.dueAt_played, htick]
  · rw [if_neg htick]
    congr 1
    funext u
    -- what is dropped has ended before, so nothing of it is due at this tick
    by_cases hpassed : t.tick ≤ u.stop
    · simp [Transition.dueAt_played, htick, hpassed]
    · have hne : u.stop ≠ tick := by omega
      simp [Transition.dueAt, hpassed, hne]

/-! ## Nothing overdue -/

/-- No pending command was due before a tick. -/
def PendingFrom (t : Timeline κ) (tick : Nat) : Prop := ∀ entry ∈ t.pending, tick ≤ entry.1

/-- Once a tick has been played, whatever is pending is due later. -/
theorem pendingFrom_played (t : Timeline κ) : t.played.PendingFrom (t.tick + 1) := by
  intro entry hentry
  rw [pending_played] at hentry
  have hlater := (List.mem_filter.mp hentry).2
  simp only [decide_eq_true_eq] at hlater
  omega

/-! ## Commands due together -/

section Together

variable {t : Timeline κ} {commands : List κ} {tick : Nat}

/-- Commands that are pending for one tick are handed out together. -/
theorem due_of_pending_eq (h : t.pending = commands.map (tick, ·)) :
    t.due = if tick = t.tick then commands else [] := by
  rw [due_eq_pending, h]
  by_cases htick : tick = t.tick
  · rw [if_pos htick, List.filter_eq_self.mpr (by simp [htick]), List.map_map]
    exact List.map_id commands
  · rw [if_neg htick, List.filter_eq_nil_iff.mpr (by simp [htick]), List.map_nil]

/-- Commands that are pending for one tick, not yet passed, stay pending together. -/
theorem pending_played_of_pending_eq (h : t.pending = commands.map (tick, ·))
    (hle : t.tick ≤ tick) : t.played.pending = if tick = t.tick then [] else t.pending := by
  rw [pending_played, h]
  by_cases htick : tick = t.tick
  · rw [if_pos htick, List.filter_eq_nil_iff.mpr (by simp [htick])]
  · have hlt : t.tick < tick := by omega
    rw [if_neg htick, List.filter_eq_self.mpr (by simp [hlt])]

end Together

/-! ## The board -/

/-- The value of a transition is written to fields that no rule looks at. -/
theorem sameFaces_writeTo (tick : Nat) (g : Grid) (t : Transition κ) :
    g.SameFaces (writeTo tick g t) := by
  unfold writeTo
  split
  · exact g.sameFaces_write _ _ _
  · exact Grid.SameFaces.refl g

/-- Playing a tick changes no face of the board. -/
theorem sameFaces_animate (t : Timeline κ) (g : Grid) : g.SameFaces (t.animate g) := by
  unfold animate
  induction t.active generalizing g with
  | nil => exact Grid.SameFaces.refl g
  | cons u rest ih => exact (sameFaces_writeTo t.tick g u).trans (ih _)

end Timeline

end OrbPuzzle
