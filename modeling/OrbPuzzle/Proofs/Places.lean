import Mathlib.Algebra.Order.Ring.Rat
import OrbPuzzle.Proofs.Binary.Exact
import OrbPuzzle.Rules
import OrbPuzzle.Transition

/-!
# Places that orbs come to

A swap takes each orb to where the other one is, not to the middle of a cell, and the last step of
the way is rounded. So an orb may come to rest beside the centre of its band, and the next swap
starts from there. `Reached` is what can come of this in any number of swaps. With the usual rules
and five bands it is little: each band has at most four places, all of them within a millionth of
its centre (`near_center_of_reached`), because a way between any two places ends in one of them
again.

Scales do not drift at all: shrinking and growing end exactly where they should (`Rules.Exact`).
-/

namespace OrbPuzzle

namespace Binary

variable {F : Format}

/-- Two finite numbers less than `ε` apart. -/
def Near (x y : Binary F) (ε : ℚ) : Prop := ∃ a ∈ x.value?, ∃ b ∈ y.value?, |a - b| < ε

instance (x y : Binary F) (ε : ℚ) : Decidable (x.Near y ε) :=
  inferInstanceAs (Decidable (∃ a ∈ x.value?, ∃ b ∈ y.value?, |a - b| < ε))

end Binary

namespace Rules

/-- The value at the end of a phase that leads from `source` to `target`. -/
def arrival (rules : Rules) (easing : Easing) (source target : Single) : Single :=
  (target - source).mulAdd
    (easing.progress (Binary.ofNat rules.phaseTicks / Binary.ofNat rules.phaseTicks)).convert source

/-- Selecting an orb and letting it go end at the exact scales. -/
structure Exact (rules : Rules) : Prop where
  shrinks : rules.arrival .windupOvershoot rules.restScale rules.selectedScale = rules.selectedScale
  grows : rules.arrival .windupOvershoot rules.selectedScale rules.restScale = rules.restScale

theorem exact_default : Exact {} := by
  constructor
  · decide +kernel
  · decide +kernel

end Rules

/-- The places to which orbs can come in a band: its centre, and where a move from a place of any
band to one of this band ends. -/
inductive Reached (rules : Rules) (size : Nat) : Nat → Single → Prop where
  | center {band : Nat} (lt : band < size) : Reached rules size band (Bands.center size band)
  | moved {other band : Nat} {source target : Single} (start : Reached rules size other source)
      (goal : Reached rules size band target) :
      Reached rules size band (rules.arrival .easeBoth source target)

/-! ## Five bands -/

/-- The places of each of five bands, by their bits. -/
def places : Nat → List Single
  | 0 => [.ofBits 0x3dccccc8, .ofBits 0x3dcccccc, .ofBits 0x3dcccccd, .ofBits 0x3dccccd0]
  | 1 => [.ofBits 0x3e99999a]
  | 2 => [.ofBits 0x3f000000]
  | 3 => [.ofBits 0x3f333333, .ofBits 0x3f333334]
  | 4 => [.ofBits 0x3f666667, .ofBits 0x3f666668]
  | _ => []

theorem center_mem_places : ∀ band < 5, Bands.center 5 band ∈ places band := by
  decide +kernel

/-- A move between two places ends in a place. -/
theorem arrival_mem_places : ∀ other < 5, ∀ band < 5, ∀ source ∈ places other,
    ∀ target ∈ places band, Rules.arrival {} .easeBoth source target ∈ places band := by
  decide +kernel

theorem near_of_mem_places : ∀ band < 5, ∀ x ∈ places band,
    x.Near (Bands.center 5 band) (1 / 10 ^ 6) := by
  decide +kernel

/-- With the usual rules, no number of swaps leads away from the places. -/
theorem mem_places_of_reached {band : Nat} {x : Single} (h : Reached {} 5 band x) :
    band < 5 ∧ x ∈ places band := by
  induction h with
  | center lt => exact ⟨lt, center_mem_places _ lt⟩
  | moved _ _ ihStart ihGoal =>
    obtain ⟨hother, hsource⟩ := ihStart
    obtain ⟨hband, htarget⟩ := ihGoal
    exact ⟨hband, arrival_mem_places _ hother _ hband _ hsource _ htarget⟩

theorem near_center_of_reached {band : Nat} {x : Single} (h : Reached {} 5 band x) :
    x.Near (Bands.center 5 band) (1 / 10 ^ 6) := by
  obtain ⟨hband, hx⟩ := mem_places_of_reached h
  exact near_of_mem_places band hband x hx

end OrbPuzzle
