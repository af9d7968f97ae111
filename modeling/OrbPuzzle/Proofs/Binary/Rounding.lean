import Mathlib.Data.Nat.Log
import Mathlib.Tactic.Ring
import OrbPuzzle.Binary.Format

/-!
# Rounding keeps order and gives codes back

Codes are laid out binade after binade, each with twice the step of the one before, so a quotient
is rounded in two parts: its bit length picks the binade, and the nearest whole number of steps
picks the code there. The two parts agree where binades meet: a quotient that is rounded up to the
end of a binade gets the first code of the next.

* `Format.round_mono`: a larger quotient never gets a smaller code.
* `Format.round_units`: the magnitude of a code rounds to that code.
* `Format.units_le_units_iff`: codes and magnitudes have one order.
* `Format.exists_units_eq`: which magnitudes have a code at all.
-/

namespace OrbPuzzle

/-! ## The nearest natural number -/

section NearestEven

variable {num num' den den' : Nat}

theorem div_le_nearestEven (num den : Nat) : num / den ≤ nearestEven num den := by
  simp only [nearestEven]
  split_ifs <;> omega

theorem nearestEven_le_div_succ (num den : Nat) : nearestEven num den ≤ num / den + 1 := by
  simp only [nearestEven]
  split_ifs <;> omega

/-- A whole number is its own nearest. -/
theorem nearestEven_mul_self (n : Nat) (hden : 0 < den) : nearestEven (n * den) den = n := by
  simp [nearestEven, hden]

/-- Only the quotient matters. -/
theorem nearestEven_mul_right (num den : Nat) {c : Nat} (hc : 0 < c) :
    nearestEven (num * c) (den * c) = nearestEven num den := by
  have htwice : 2 * (num * c % (den * c)) = 2 * (num % den) * c := by
    rw [Nat.mul_mod_mul_right, Nat.mul_assoc]
  simp only [nearestEven, htwice, Nat.mul_div_mul_right _ _ hc, Nat.mul_lt_mul_right hc]

theorem nearestEven_mono_left (h : num ≤ num') (den : Nat) :
    nearestEven num den ≤ nearestEven num' den := by
  have hdiv : num / den ≤ num' / den := Nat.div_le_div_right h
  rcases Nat.lt_or_eq_of_le hdiv with hlt | heq
  · calc nearestEven num den
      _ ≤ num / den + 1 := nearestEven_le_div_succ _ _
      _ ≤ num' / den := hlt
      _ ≤ nearestEven num' den := div_le_nearestEven _ _
  · -- the same whole part, so the remainders decide
    have hmod : num % den ≤ num' % den := by
      have hnum := Nat.div_add_mod num den
      have hnum' := Nat.div_add_mod num' den
      rw [heq] at hnum
      omega
    simp only [nearestEven, heq]
    split_ifs <;> omega

/-- Rounding to a natural number keeps the order of quotients. -/
theorem nearestEven_mono (hden : 0 < den) (hden' : 0 < den') (h : num * den' ≤ num' * den) :
    nearestEven num den ≤ nearestEven num' den' :=
  calc nearestEven num den
    _ = nearestEven (num * den') (den * den') := (nearestEven_mul_right num den hden').symm
    _ ≤ nearestEven (num' * den) (den * den') := nearestEven_mono_left h _
    _ = nearestEven (num' * den) (den' * den) := by rw [Nat.mul_comm den]
    _ = nearestEven num' den' := nearestEven_mul_right num' den' hden

end NearestEven

namespace Format

variable {F : Format} {num num' den den' : Nat}

theorem binade_pos (F : Format) : 0 < F.binade := by
  rw [F.binade_eq]
  exact Nat.two_pow_pos _

theorem two_pow_precision (F : Format) : 2 ^ F.precision = 2 * F.binade := by
  have hprecision : F.precision = F.precision - 1 + 1 := by
    have := F.two_le_precision
    omega
  rw [F.binade_eq, hprecision]
  exact Nat.pow_succ'

theorem unitsPerOne_pos (F : Format) : 0 < F.unitsPerOne := by
  rw [F.unitsPerOne_eq]
  exact Nat.two_pow_pos _

theorem infinity_pos (F : Format) : 0 < F.infinity := by
  have hbits : F.exponentBits ≠ 0 := by
    have := F.two_le_exponentBits
    omega
  rw [F.infinity_eq]
  exact Nat.mul_pos (Nat.sub_pos_of_lt (Nat.one_lt_two_pow hbits)) F.binade_pos

/-! ## Magnitudes of codes -/

/-- In the first two binades the step is one unit. -/
theorem units_of_lt {code : Nat} (h : code < 2 * F.binade) : F.units code = code := by
  unfold units
  dsimp only
  split
  · rfl
  · next hexponent =>
    have hone : code / F.binade = 1 :=
      Nat.le_antisymm (Nat.le_of_lt_succ ((Nat.div_lt_iff_lt_mul F.binade_pos).mpr h))
        (Nat.pos_of_ne_zero hexponent)
    have hcode := Nat.div_add_mod code F.binade
    rw [hone, Nat.mul_one] at hcode
    rw [hone, hcode]
    exact Nat.mul_one _

/-- A full significand, shifted. -/
theorem units_add {significand : Nat} (hlow : F.binade ≤ significand)
    (hhigh : significand < 2 * F.binade) (shift : Nat) :
    F.units (shift * F.binade + significand) = significand * 2 ^ shift := by
  obtain ⟨rest, rfl⟩ := Nat.exists_eq_add_of_le hlow
  have hrest : rest < F.binade := by omega
  have hcode : shift * F.binade + (F.binade + rest) = rest + (shift + 1) * F.binade := by ring
  have hdiv : (rest + (shift + 1) * F.binade) / F.binade = shift + 1 := by
    rw [Nat.add_mul_div_right _ _ F.binade_pos, Nat.div_eq_of_lt hrest, Nat.zero_add]
  have hmod : (rest + (shift + 1) * F.binade) % F.binade = rest := by
    rw [Nat.add_mul_mod_self_right, Nat.mod_eq_of_lt hrest]
  unfold units
  dsimp only
  rw [hcode, hdiv, hmod, if_neg (Nat.succ_ne_zero shift), Nat.add_sub_cancel]
  rfl

/-- A code past the first binade is a full significand and a shift. -/
theorem exists_significand {code : Nat} (h : F.binade ≤ code) :
    ∃ shift significand, F.binade ≤ significand ∧ significand < 2 * F.binade ∧
      code = shift * F.binade + significand := by
  have hmod := Nat.mod_lt code F.binade_pos
  have hpos : 0 < code / F.binade := Nat.div_pos h F.binade_pos
  refine ⟨code / F.binade - 1, F.binade + code % F.binade, by omega, by omega, ?_⟩
  calc code
    _ = code / F.binade * F.binade + code % F.binade := (Nat.div_add_mod' _ _).symm
    _ = (code / F.binade - 1 + 1) * F.binade + code % F.binade := by rw [Nat.sub_add_cancel hpos]
    _ = (code / F.binade - 1) * F.binade + (F.binade + code % F.binade) := by ring

/-- Every number of units with few enough significant bits is the magnitude of a code. -/
theorem exists_units_eq {significand : Nat} (h : significand < 2 * F.binade) (shift : Nat) :
    ∃ code < (shift + 2) * F.binade, F.units code = significand * 2 ^ shift := by
  induction shift generalizing significand with
  | zero =>
    refine ⟨significand, by omega, ?_⟩
    rw [units_of_lt h, pow_zero, Nat.mul_one]
  | succ shift ih =>
    by_cases hlow : F.binade ≤ significand
    · refine ⟨(shift + 1) * F.binade + significand, ?_, units_add hlow h _⟩
      have hsum : (shift + 1 + 2) * F.binade = (shift + 1) * F.binade + 2 * F.binade := by ring
      omega
    · -- a short significand takes one more bit and one shift less
      have hlong : 2 * significand < 2 * F.binade := by omega
      obtain ⟨code, hcode, hunits⟩ := ih hlong
      refine ⟨code, ?_, ?_⟩
      · calc code
          _ < (shift + 2) * F.binade := hcode
          _ ≤ (shift + 1 + 2) * F.binade := Nat.mul_le_mul_right _ (by omega)
      · rw [hunits, pow_succ]
        ring

/-! ## Rounding -/

/-- How many bits a quotient has beyond the precision. -/
def excess (F : Format) (num den : Nat) : Nat := (num / den).log2 + 1 - F.precision

/-- The code nearest to a quotient, as if codes went on past infinity. -/
def uncapped (F : Format) (num den : Nat) : Nat :=
  F.excess num den * F.binade + nearestEven num (den * 2 ^ F.excess num den)

theorem round_val (F : Format) (num den : Nat) :
    (F.round num den).val = min F.infinity (F.uncapped num den) := rfl

theorem div_lt_of_excess (F : Format) (num den : Nat) :
    num / den < 2 * F.binade * 2 ^ F.excess num den := by
  rw [← two_pow_precision, ← pow_add]
  calc num / den
    _ < 2 ^ ((num / den).log2 + 1) := Nat.lt_log2_self
    _ ≤ 2 ^ (F.precision + F.excess num den) := by
      apply Nat.pow_le_pow_right Nat.two_pos
      unfold excess
      omega

theorem le_div_of_excess (h : F.excess num den ≠ 0) :
    F.binade * 2 ^ F.excess num den ≤ num / den := by
  have hprecision := F.two_le_precision
  have hlog : (num / den).log2 = F.precision - 1 + F.excess num den := by
    unfold excess at h ⊢
    omega
  have hne : num / den ≠ 0 := by
    intro hzero
    rw [excess, hzero, Nat.log2_zero] at h
    omega
  calc F.binade * 2 ^ F.excess num den
    _ = 2 ^ (F.precision - 1 + F.excess num den) := by
      rw [F.binade_eq, Nat.pow_add]
      rfl
    _ = 2 ^ (num / den).log2 := by rw [hlog]
    _ ≤ num / den := Nat.log2_self_le hne

/-- The excess is where the quotient falls among the powers of two. -/
theorem excess_eq {e : Nat} (hlow : e = 0 ∨ F.binade * 2 ^ e ≤ num / den)
    (hhigh : num / den < 2 * F.binade * 2 ^ e) : F.excess num den = e := by
  have hstep {a b : Nat} (h : a < b) : 2 * F.binade * 2 ^ a ≤ F.binade * 2 ^ b :=
    calc 2 * F.binade * 2 ^ a
      _ = F.binade * 2 ^ (a + 1) := by ring
      _ ≤ F.binade * 2 ^ b := Nat.mul_le_mul_left _ (Nat.pow_le_pow_right Nat.two_pos h)
  rcases Nat.lt_trichotomy (F.excess num den) e with hlt | heq | hgt
  · have hupper := F.div_lt_of_excess num den
    have := hstep hlt
    omega
  · exact heq
  · have hne : F.excess num den ≠ 0 := by omega
    have hlower := le_div_of_excess hne
    have := hstep hgt
    omega

theorem excess_mono (h : num / den ≤ num' / den') : F.excess num den ≤ F.excess num' den' := by
  have hlog : (num / den).log2 ≤ (num' / den').log2 := by
    rw [Nat.log2_eq_log_two, Nat.log2_eq_log_two]
    exact Nat.log_mono_right h
  unfold excess
  omega

/-- The codes of a quotient with excess bits lie in one binade, its upper end included. -/
theorem uncapped_le (F : Format) (num den : Nat) :
    F.uncapped num den ≤ (F.excess num den + 2) * F.binade := by
  have hnearest : nearestEven num (den * 2 ^ F.excess num den) ≤ 2 * F.binade := by
    have hdiv : num / (den * 2 ^ F.excess num den) < 2 * F.binade := by
      rw [← Nat.div_div_eq_div_mul]
      exact (Nat.div_lt_iff_lt_mul (Nat.two_pow_pos _)).mpr (F.div_lt_of_excess num den)
    exact Nat.le_trans (nearestEven_le_div_succ _ _) hdiv
  calc F.uncapped num den
    _ ≤ F.excess num den * F.binade + 2 * F.binade := Nat.add_le_add_left hnearest _
    _ = (F.excess num den + 2) * F.binade := by ring

theorem le_uncapped (h : F.excess num den ≠ 0) :
    (F.excess num den + 1) * F.binade ≤ F.uncapped num den := by
  have hnearest : F.binade ≤ nearestEven num (den * 2 ^ F.excess num den) := by
    have hdiv : F.binade ≤ num / (den * 2 ^ F.excess num den) := by
      rw [← Nat.div_div_eq_div_mul]
      exact (Nat.le_div_iff_mul_le (Nat.two_pow_pos _)).mpr (le_div_of_excess h)
    exact Nat.le_trans hdiv (div_le_nearestEven _ _)
  calc (F.excess num den + 1) * F.binade
    _ = F.excess num den * F.binade + F.binade := Nat.succ_mul _ _
    _ ≤ F.uncapped num den := Nat.add_le_add_left hnearest _

theorem uncapped_mono (hden : 0 < den) (hden' : 0 < den') (h : num * den' ≤ num' * den) :
    F.uncapped num den ≤ F.uncapped num' den' := by
  have hdiv : num / den ≤ num' / den' := by
    apply (Nat.le_div_iff_mul_le hden').mpr
    apply Nat.le_of_mul_le_mul_right _ hden
    calc num / den * den' * den
      _ = num / den * den * den' := Nat.mul_right_comm _ _ _
      _ ≤ num * den' := Nat.mul_le_mul_right _ (Nat.div_mul_le_self _ _)
      _ ≤ num' * den := h
  rcases Nat.lt_or_eq_of_le (excess_mono (F := F) hdiv) with hlt | heq
  · calc F.uncapped num den
      _ ≤ (F.excess num den + 2) * F.binade := uncapped_le F num den
      _ ≤ (F.excess num' den' + 1) * F.binade := Nat.mul_le_mul_right _ (by omega)
      _ ≤ F.uncapped num' den' := le_uncapped (by omega)
  · unfold uncapped
    rw [heq]
    have hpos := Nat.two_pow_pos (F.excess num' den')
    apply Nat.add_le_add_left
    apply nearestEven_mono (Nat.mul_pos hden hpos) (Nat.mul_pos hden' hpos)
    calc num * (den' * 2 ^ F.excess num' den')
      _ = num * den' * 2 ^ F.excess num' den' := (Nat.mul_assoc _ _ _).symm
      _ ≤ num' * den * 2 ^ F.excess num' den' := Nat.mul_le_mul_right _ h
      _ = num' * (den * 2 ^ F.excess num' den') := Nat.mul_assoc _ _ _

/-- Rounding keeps the order of quotients. -/
theorem round_mono (hden : 0 < den) (hden' : 0 < den') (h : num * den' ≤ num' * den) :
    (F.round num den).val ≤ (F.round num' den').val := by
  rw [round_val, round_val]
  exact min_le_min_left _ (uncapped_mono hden hden' h)

/-- Only the quotient matters. -/
theorem round_mul_right (num den : Nat) {c : Nat} (hc : 0 < c) :
    F.round (num * c) (den * c) = F.round num den := by
  apply Fin.ext
  have hdiv : num * c / (den * c) = num / den := Nat.mul_div_mul_right _ _ hc
  have hexcess : F.excess (num * c) (den * c) = F.excess num den := by rw [excess, excess, hdiv]
  rw [round_val, round_val, uncapped, uncapped, hexcess, Nat.mul_right_comm den,
    nearestEven_mul_right _ _ hc]

/-- The code of a magnitude is its own nearest. -/
theorem uncapped_units (F : Format) (code : Nat) : F.uncapped (F.units code) 1 = code := by
  rcases Nat.lt_or_ge code F.binade with hlt | hge
  · have hexcess : F.excess code 1 = 0 := by
      apply excess_eq (.inl rfl)
      rw [Nat.div_one, pow_zero]
      omega
    have hnearest : nearestEven (code * 1) 1 = code := nearestEven_mul_self code Nat.one_pos
    rw [units_of_lt (by omega), uncapped, hexcess, pow_zero, Nat.mul_one, Nat.zero_mul,
      Nat.zero_add, ← Nat.mul_one code, hnearest, Nat.mul_one]
  · obtain ⟨shift, significand, hlow, hhigh, rfl⟩ := exists_significand hge
    have hexcess : F.excess (significand * 2 ^ shift) 1 = shift := by
      apply excess_eq
      · rw [Nat.div_one]
        exact .inr (Nat.mul_le_mul_right _ hlow)
      · rw [Nat.div_one]
        exact Nat.mul_lt_mul_of_pos_right hhigh (Nat.two_pow_pos _)
    rw [units_add hlow hhigh, uncapped, hexcess, Nat.one_mul,
      nearestEven_mul_self _ (Nat.two_pow_pos _)]

/-- Rounding gives back every code, finite or not. -/
theorem round_units (code : Fin (F.infinity + 1)) (hden : 0 < den) :
    F.round (F.units code * den) den = code := by
  have hone : F.round (F.units code * den) (1 * den) = F.round (F.units code) 1 :=
    round_mul_right _ _ hden
  rw [Nat.one_mul] at hone
  apply Fin.ext
  rw [hone, round_val, uncapped_units]
  exact Nat.min_eq_right (Nat.le_of_lt_succ code.isLt)

/-- Codes and their magnitudes have one order. -/
theorem units_le_units_iff {code code' : Nat} : F.units code ≤ F.units code' ↔ code ≤ code' := by
  have hmono {a b : Nat} (h : F.units a ≤ F.units b) : a ≤ b := by
    have := uncapped_mono (F := F) Nat.one_pos Nat.one_pos (by simpa using h)
    rwa [uncapped_units, uncapped_units] at this
  constructor
  · exact hmono
  · intro h
    by_contra hlt
    have hback := hmono (Nat.le_of_not_le hlt)
    obtain rfl := Nat.le_antisymm h hback
    exact hlt (Nat.le_refl _)

end Format

end OrbPuzzle
