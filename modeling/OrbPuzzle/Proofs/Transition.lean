import OrbPuzzle.Proofs.Binary.Exact
import OrbPuzzle.Transition

/-!
# Where transitions start and end

A transition gives its value in three steps, all of which round: the elapsed fraction, the progress
along its curve, and the fused step from source to target. At the two ends of the span the first two
are exact. The elapsed fraction is zero and one, however long the span is, since a count of ticks is
rounded before it is divided by itself. The progress is a zero and one as soon as it is in single
precision, on every curve.

So a transition starts at its source and ends at the rounded sum of the source and the way from
there (`Motion.valueAt_one`). The sum is the target if the way could be given without error
(`Motion.arrives`).
-/

namespace OrbPuzzle

namespace Format

theorem holds_one_single : single.Holds (1 : ℕ) := ⟨.one, by decide +kernel⟩

theorem holds_one_double : double.Holds (1 : ℕ) := ⟨.one, by decide +kernel⟩

theorem holds_limit_double : double.Holds Count.limit := ⟨.ofNat Count.limit, by decide +kernel⟩

end Format

namespace Easing

/-- Every curve starts at a zero. Of the curved ones it is the negative zero. -/
theorem exists_progress_zero (easing : Easing) :
    ∃ s, ((easing.progress (.zero false)).convert : Single) = .zero s := by
  cases easing with
  | linear => exact ⟨false, by decide +kernel⟩
  | windupOvershoot => exact ⟨true, by decide +kernel⟩
  | easeBoth => exact ⟨true, by decide +kernel⟩

/-- Every curve ends at one in single precision. In double precision the curved ones miss it. -/
theorem progress_one (easing : Easing) : ((easing.progress .one).convert : Single) = .one := by
  cases easing <;> decide +kernel

end Easing

namespace Transition

variable {κ : Type}

theorem exists_length_eq {t : Transition κ} (h : t.stop < Count.limit) :
    ∃ code, (.ofNat (t.stop - t.start) : Double) = .number false code ∧ code.val ≠ 0 ∧
      code.val ≠ Format.double.infinity := by
  have hspan := t.start_lt_stop
  exact Binary.exists_ofNat_eq (by omega) (by omega) Format.holds_one_double
    Format.holds_limit_double

theorem elapsed_start {t : Transition κ} (h : t.stop < Count.limit) :
    t.elapsed t.start = .zero false := by
  obtain ⟨code, hcode, hne, hfinite⟩ := exists_length_eq h
  have hzero : (.ofNat 0 : Double) = .zero false := by decide +kernel
  rw [elapsed, Nat.sub_self, hcode, hzero, Binary.zero_div_number hne hfinite]

theorem elapsed_stop {t : Transition κ} (h : t.stop < Count.limit) : t.elapsed t.stop = .one := by
  obtain ⟨code, hcode, hne, hfinite⟩ := exists_length_eq h
  rw [elapsed, hcode, Binary.div_self Format.holds_one_double hne hfinite]

end Transition

namespace Motion

variable {m : Motion} {a b d : ℚ}

/-- At the start a motion is where it comes from, up to the sign of a zero. -/
theorem value?_valueAt_zero (hsource : m.source.value? = some a)
    (hdiff : (m.target - m.source).value? = some d) :
    (m.valueAt (.zero false)).value? = some a := by
  obtain ⟨s, hprogress⟩ := m.easing.exists_progress_zero
  rw [valueAt, hprogress]
  exact Binary.value?_mulAdd_zero hdiff hsource s

/-- At the end a motion is at the sum of its source and the way from there, each rounded. -/
theorem valueAt_one (m : Motion) : m.valueAt .one = m.target - m.source + m.source := by
  rw [valueAt, m.easing.progress_one, Binary.mulAdd_one Format.holds_one_single]

/-- A way that was not rounded leads to the target. Only if the target is the negative zero can the
end be another number, the positive zero. -/
theorem arrives (hsource : m.source.value? = some a) (htarget : m.target.value? = some b)
    (hdiff : (m.target - m.source).value? = some (b - a)) :
    (m.target - m.source + m.source).value? = some b ∧
      (m.target ≠ .zero true → m.target - m.source + m.source = m.target) := by
  have hsum : b - a + a = b := sub_add_cancel b a
  have hvalue : (m.target - m.source + m.source).value? = some b := by
    rw [← hsum]
    exact Binary.value?_add hdiff hsource (hsum.symm ▸ ⟨m.target, htarget⟩)
  refine ⟨hvalue, fun hne => ?_⟩
  by_cases hb : b = 0
  · subst hb
    obtain ⟨s, hs⟩ := Binary.exists_zero_of_value? hvalue
    obtain ⟨t, ht⟩ := Binary.exists_zero_of_value? htarget
    cases s with
    | true =>
      -- a sum that is the negative zero has only such terms, and so has the difference
      have hway : m.target + -m.source = .zero true := Binary.eq_zero_of_add_eq_zero hs
      exact absurd (Binary.eq_zero_of_add_eq_zero hway) hne
    | false =>
      cases t with
      | true => exact absurd ht hne
      | false => rw [hs, ht]
  · exact Binary.eq_of_value?_eq hvalue htarget hb

end Motion

namespace Transition

variable {κ : Type}

theorem valueAt_eq {t : Transition κ} {m : Motion} (hmotion : t.motion = some m) (tick : Nat) :
    t.valueAt tick =
      if t.IsActiveAt tick then some (m.valueAt (t.elapsed tick)) else none := by
  simp only [valueAt, hmotion]

/-- A transition that moves something gives a value exactly during its span. The first one is the
source, and the last one is the source and the way to the target added up, each rounded once. That
is the target if the way was not rounded. -/
theorem endpoints {t : Transition κ} {m : Motion} {a b d : ℚ} (hmotion : t.motion = some m)
    (hstop : t.stop < Count.limit) (hsource : m.source.value? = some a)
    (htarget : m.target.value? = some b) (hdiff : (m.target - m.source).value? = some d) :
    (∃ v, t.valueAt t.start = some v ∧ v.value? = some a) ∧
      t.valueAt t.stop = some (m.target - m.source + m.source) ∧
      (d = b - a → ∃ v, t.valueAt t.stop = some v ∧ v.value? = some b ∧
        (m.target ≠ .zero true → v = m.target)) ∧
      ∀ tick, (t.valueAt tick).isSome ↔ t.start ≤ tick ∧ tick ≤ t.stop := by
  have hspan := t.start_lt_stop.le
  have hfirst : t.valueAt t.start = some (m.valueAt (.zero false)) := by
    rw [valueAt_eq hmotion, if_pos ⟨Nat.le_refl _, hspan⟩, elapsed_start hstop]
  have hlast : t.valueAt t.stop = some (m.target - m.source + m.source) := by
    rw [valueAt_eq hmotion, if_pos ⟨hspan, Nat.le_refl _⟩, elapsed_stop hstop, m.valueAt_one]
  refine ⟨⟨_, hfirst, Motion.value?_valueAt_zero hsource hdiff⟩, hlast, ?_, ?_⟩
  · rintro rfl
    exact ⟨_, hlast, Motion.arrives hsource htarget hdiff⟩
  · intro tick
    rw [valueAt_eq hmotion, Option.isSome_ite]
    rfl

/-- A transition from one half to one that lasts to the end of time. -/
def longest : Transition Unit where
  start := 3
  stop := Count.limit - 1
  motion := some ⟨0, .scale, Binary.half .one, .one, .windupOvershoot⟩
  onDone := none
  start_lt_stop := by decide

/-- It starts at one half and ends at one, although its length is no double. -/
theorem endpoints_longest :
    longest.stop < Count.limit ∧ (∃ v, longest.valueAt 3 = some v ∧ v.value? = some (1 / 2)) ∧
      longest.valueAt (Count.limit - 1) = some .one ∧ (longest.valueAt 2).isSome = false := by
  have hstop : longest.stop < Count.limit := by decide
  obtain ⟨hfirst, -, hlast, hactive⟩ := endpoints (t := longest) (a := 1 / 2) (b := 1) (d := 1 / 2)
    rfl hstop (by decide +kernel) (by decide +kernel) (by decide +kernel)
  obtain ⟨v, hvalue, -, htarget⟩ := hlast (by norm_num)
  refine ⟨hstop, hfirst, ?_, ?_⟩
  · exact hvalue.trans (congrArg some (htarget (by decide +kernel)))
  · rw [Bool.eq_false_iff, ne_eq, hactive]
    decide

end Transition

end OrbPuzzle
