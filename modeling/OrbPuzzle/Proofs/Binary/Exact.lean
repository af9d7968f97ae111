import Mathlib.Data.Rat.Cast.Order
import Mathlib.Tactic.FieldSimp
import OrbPuzzle.Binary.Arithmetic
import OrbPuzzle.Proofs.Binary.Rounding

/-!
# Arithmetic without rounding error

Every operation rounds its exact result once. So where the exact result is itself a number of the
format, that number comes out, and the operation can be read as one on fractions. What a format has
numbers for is `Format.Holds`.

* `le_iff_of_value?`, `lt_iff_of_value?`: finite numbers are ordered as their values are.
* `value?_add`, `value?_sub`, `value?_div`: results that the format holds are exact.
* `div_le_div_right`: a quotient keeps the order of its numerators, exact or not.
* `value?_mulAdd_zero`, `mulAdd_one`: a fused step with a factor of zero or one.
-/

namespace OrbPuzzle

namespace Binary

variable {F : Format} {x y : Binary F} {a b q : ℚ}

/-- The number that is meant, as an exact fraction; none for infinities and not-a-number. -/
def value? : Binary F → Option ℚ
  | .nan => none
  | .number negative code =>
    if code.val = F.infinity then none
    else some ((signed negative (F.units code) : ℚ) / F.unitsPerOne)

theorem value?_number {code : Fin (F.infinity + 1)} (h : code.val ≠ F.infinity) (s : Bool) :
    (number s code).value? = some ((signed s (F.units code) : ℚ) / F.unitsPerOne) :=
  if_neg h

theorem exists_of_value? (h : x.value? = some a) :
    ∃ s code, x = .number s code ∧ code.val ≠ F.infinity ∧
      a = (signed s (F.units code) : ℚ) / F.unitsPerOne := by
  cases x with
  | nan => cases h
  | number s code =>
    by_cases hfinite : code.val = F.infinity
    · rw [value?, if_pos hfinite] at h
      cases h
    · rw [value?_number hfinite] at h
      exact ⟨s, code, rfl, hfinite, (Option.some.inj h).symm⟩

theorem cast_unitsPerOne_pos (F : Format) : (0 : ℚ) < F.unitsPerOne :=
  Nat.cast_pos.mpr F.unitsPerOne_pos

@[simp]
theorem signed_zero (s : Bool) : signed s 0 = 0 := by
  cases s <;> rfl

@[simp]
theorem natAbs_signed (s : Bool) (n : Nat) : (signed s n).natAbs = n := by
  cases s <;> simp [signed]

/-- A signed number tells its magnitude. -/
theorem eq_of_signed_eq {s t : Bool} {m n : Nat} (h : signed s m = signed t n) : m = n := by
  have habs := congrArg Int.natAbs h
  rwa [natAbs_signed, natAbs_signed] at habs

theorem signed_mul (s : Bool) (m n : Nat) : signed s (m * n) = signed s m * n := by
  cases s <;> simp [signed]

/-! ## Order -/

/-- Replacing two magnitudes by others in the same order keeps the order with signs. -/
theorem signed_le_signed {s t : Bool} {a b a' b' : Nat} (hab : a ≤ b → a' ≤ b')
    (hba : b ≤ a → b' ≤ a') (hb : b = 0 → b' = 0)
    (h : signed s a ≤ signed t b) : signed s a' ≤ signed t b' := by
  cases s <;> cases t <;> simp only [signed] at h ⊢ <;> grind

theorem units_eq_zero_iff {code : Nat} : F.units code = 0 ↔ code = 0 := by
  have hzero : F.units 0 = 0 := Format.units_of_lt (Nat.mul_pos Nat.two_pos F.binade_pos)
  have hle : F.units code ≤ F.units 0 ↔ code ≤ 0 := Format.units_le_units_iff
  rwa [hzero, Nat.le_zero, Nat.le_zero] at hle

theorem units_pos {code : Nat} (h : code ≠ 0) : 0 < F.units code :=
  Nat.pos_of_ne_zero (mt units_eq_zero_iff.mp h)

theorem signed_units_le_iff {s t : Bool} {code code' : Nat} :
    signed s (F.units code) ≤ signed t (F.units code') ↔ signed s code ≤ signed t code' := by
  constructor
  · exact signed_le_signed Format.units_le_units_iff.mp Format.units_le_units_iff.mp
      units_eq_zero_iff.mp
  · exact signed_le_signed Format.units_le_units_iff.mpr Format.units_le_units_iff.mpr
      units_eq_zero_iff.mpr

theorem number_le_number_iff {s t : Bool} {code code' : Fin (F.infinity + 1)} :
    number s code ≤ number t code' ↔ signed s code ≤ signed t code' :=
  decide_eq_true_iff

theorem number_lt_number_iff {s t : Bool} {code code' : Fin (F.infinity + 1)} :
    number s code < number t code' ↔ signed s code < signed t code' :=
  decide_eq_true_iff

theorem lt_of_le_of_lt {x y z : Binary F} (hxy : x ≤ y) (hyz : y < z) : x < z := by
  match x, y, z, hxy, hyz with
  | .number _ _, .number _ _, .number _ _, hxy, hyz =>
    rw [number_lt_number_iff]
    exact Int.lt_of_le_of_lt (number_le_number_iff.mp hxy) (number_lt_number_iff.mp hyz)

/-- Finite numbers are ordered as their values are. -/
theorem le_iff_of_value? (hx : x.value? = some a) (hy : y.value? = some b) : x ≤ y ↔ a ≤ b := by
  obtain ⟨s, code, rfl, -, rfl⟩ := exists_of_value? hx
  obtain ⟨t, code', rfl, -, rfl⟩ := exists_of_value? hy
  rw [div_le_div_iff_of_pos_right (cast_unitsPerOne_pos F), Int.cast_le, signed_units_le_iff,
    number_le_number_iff]

theorem lt_iff_of_value? (hx : x.value? = some a) (hy : y.value? = some b) : x < y ↔ a < b := by
  obtain ⟨s, code, rfl, -, rfl⟩ := exists_of_value? hx
  obtain ⟨t, code', rfl, -, rfl⟩ := exists_of_value? hy
  rw [div_lt_div_iff_of_pos_right (cast_unitsPerOne_pos F), Int.cast_lt, ← Int.not_le, signed_units_le_iff,
    Int.not_le, number_lt_number_iff]

end Binary

/-! ## Exact results -/

/-- The format has a number of this value. -/
def Format.Holds (F : Format) (q : ℚ) : Prop := ∃ x : Binary F, x.value? = some q

namespace Binary

variable {F : Format} {x y : Binary F} {a b q : ℚ}

/-- A quotient that the format holds is not rounded. -/
theorem value?_round {s : Bool} {num den : Nat} (hden : 0 < den) (hq : F.Holds q)
    (h : (signed s num : ℚ) = q * (den * F.unitsPerOne)) :
    (number s (F.round num den)).value? = some q := by
  obtain ⟨z, hz⟩ := hq
  obtain ⟨t, code, -, hfinite, rfl⟩ := exists_of_value? hz
  have hsigned : signed s num = signed t (F.units code) * den := by
    have := cast_unitsPerOne_pos F
    field_simp at h
    exact_mod_cast h
  have hnum : num = F.units code * den := by
    rw [← signed_mul] at hsigned
    exact eq_of_signed_eq hsigned
  have hsign : signed s (F.units code) = signed t (F.units code) := by
    rw [hnum, signed_mul] at hsigned
    exact Int.eq_of_mul_eq_mul_right (Int.natCast_ne_zero.mpr hden.ne') hsigned
  rw [hnum, Format.round_units code hden, value?_number hfinite, hsign]

theorem value?_ofUnits {num : Int} {den : Nat} (hden : 0 < den) (hq : F.Holds q)
    (h : (num : ℚ) = q * (den * F.unitsPerOne)) (zeroSign : Bool) :
    (ofUnits zeroSign num den : Binary F).value? = some q := by
  apply value?_round hden hq
  rw [← h]
  congr 1
  split
  · next hzero => rw [hzero, Int.natAbs_zero, signed_zero]
  · unfold signed
    split <;> grind

theorem value?_neg (hx : x.value? = some a) : (-x).value? = some (-a) := by
  obtain ⟨s, code, rfl, hfinite, rfl⟩ := exists_of_value? hx
  show (number (!s) code).value? = _
  rw [value?_number hfinite]
  cases s <;> simp [signed, neg_div]

/-- A sum that the format holds is exact. -/
theorem value?_add (hx : x.value? = some a) (hy : y.value? = some b) (h : F.Holds (a + b)) :
    (x + y).value? = some (a + b) := by
  obtain ⟨s, code, rfl, hfinite, rfl⟩ := exists_of_value? hx
  obtain ⟨t, code', rfl, hfinite', rfl⟩ := exists_of_value? hy
  have hadd : number s code + number t code' =
      ofUnits (s && t) (signed s (F.units code) + signed t (F.units code')) 1 := by
    show add _ _ = _
    rw [add, if_neg hfinite, if_neg hfinite']
  have := cast_unitsPerOne_pos F
  rw [hadd]
  apply value?_ofUnits Nat.one_pos h
  push_cast
  field_simp

theorem value?_sub (hx : x.value? = some a) (hy : y.value? = some b) (h : F.Holds (a - b)) :
    (x - y).value? = some (a - b) := by
  rw [sub_eq_add_neg] at h ⊢
  exact value?_add hx (value?_neg hy) h

/-- A quotient that the format holds is exact. -/
theorem value?_div (hx : x.value? = some a) (hy : y.value? = some b) (hb : b ≠ 0)
    (h : F.Holds (a / b)) : (x / y).value? = some (a / b) := by
  obtain ⟨s, code, rfl, hfinite, rfl⟩ := exists_of_value? hx
  obtain ⟨t, code', rfl, hfinite', rfl⟩ := exists_of_value? hy
  have hcode' : code'.val ≠ 0 := by
    intro hzero
    apply hb
    rw [units_eq_zero_iff.mpr hzero, signed_zero, Int.cast_zero, zero_div]
  have hdiv : number s code / number t code' =
      number (s ^^ t) (F.round (F.units code * F.unitsPerOne) (F.units code')) := by
    show div _ _ = _
    rw [div, if_neg hfinite, if_neg hfinite', if_neg hcode']
  have hunits : 0 < F.units code' := units_pos hcode'
  have hunits' : (F.units code' : ℚ) ≠ 0 := Nat.cast_ne_zero.mpr hunits.ne'
  have hone := cast_unitsPerOne_pos F
  rw [hdiv]
  apply value?_round hunits h
  cases s <;> cases t <;> simp [signed] <;> field_simp

/-! ## Equal values -/

theorem signed_eq_signed {s t : Bool} {n : Nat} (h : signed s n = signed t n) (hn : n ≠ 0) :
    s = t := by
  cases s <;> cases t <;> simp only [signed] at h <;> grind

/-- Apart from the two zeros, a value belongs to one number. -/
theorem eq_of_value?_eq (hx : x.value? = some a) (hy : y.value? = some a) (ha : a ≠ 0) : x = y := by
  obtain ⟨s, code, rfl, hfinite, rfl⟩ := exists_of_value? hx
  obtain ⟨t, code', rfl, hfinite', heq⟩ := exists_of_value? hy
  have hsigned : signed s (F.units code) = signed t (F.units code') := by
    rw [div_left_inj' (cast_unitsPerOne_pos F).ne'] at heq
    exact_mod_cast heq
  have hunits : F.units code = F.units code' := eq_of_signed_eq hsigned
  have hcode : code = code' :=
    Fin.ext (Nat.le_antisymm (Format.units_le_units_iff.mp hunits.le)
      (Format.units_le_units_iff.mp hunits.ge))
  have hne : F.units code ≠ 0 := by
    intro hzero
    apply ha
    rw [hzero, signed_zero, Int.cast_zero, zero_div]
  rw [← hunits] at hsigned
  rw [hcode, signed_eq_signed hsigned hne]

theorem exists_zero_of_value? (hx : x.value? = some 0) : ∃ s, x = zero s := by
  obtain ⟨s, code, rfl, -, heq⟩ := exists_of_value? hx
  have hsigned : signed s (F.units code) = signed s 0 := by
    rw [eq_comm, div_eq_zero_iff, or_iff_left (cast_unitsPerOne_pos F).ne'] at heq
    rw [signed_zero]
    exact_mod_cast heq
  have hcode : code.val = 0 := units_eq_zero_iff.mp (eq_of_signed_eq hsigned)
  exact ⟨s, congrArg (number s) (Fin.ext hcode)⟩

/-- A sum of whole units is only rounded to zero if it is zero. -/
theorem ofUnits_eq_zero {zeroSign s : Bool} {num : Int}
    (h : (ofUnits zeroSign num 1 : Binary F) = zero s) : num = 0 ∧ zeroSign = s := by
  obtain ⟨hsign, hcode⟩ := number.inj h
  have hnum : num = 0 := by
    by_contra hne
    have hunits : F.units 1 = 1 := Format.units_of_lt (by have := F.binade_pos; omega)
    have hone := Format.round_units (⟨1, Nat.succ_lt_succ F.infinity_pos⟩ : Fin _) Nat.one_pos
    have hmono : (F.round (F.units 1 * 1) 1).val ≤ (F.round num.natAbs 1).val :=
      Format.round_mono Nat.one_pos Nat.one_pos (by omega)
    rw [hone, hcode] at hmono
    exact absurd hmono (by simp)
  rw [if_pos hnum] at hsign
  exact ⟨hnum, hsign⟩

theorem infinite_ne_zero (s t : Bool) : (infinite s : Binary F) ≠ zero t := by
  intro h
  have hlast := congrArg Fin.val (number.inj h).2
  exact F.infinity_pos.ne' hlast

/-- A sum is the negative zero only if its terms are. -/
theorem eq_zero_of_add_eq_zero (h : x + y = zero true) : x = zero true := by
  match x, y, h with
  | .number s a, .number t b, h =>
    replace h : add (number s a) (number t b) = zero true := h
    rw [add] at h
    by_cases ha : a.val = F.infinity
    · rw [if_pos ha] at h
      split at h
      · cases h
      · exact absurd h (infinite_ne_zero s true)
    · by_cases hb : b.val = F.infinity
      · rw [if_neg ha, if_pos hb] at h
        exact absurd h (infinite_ne_zero t true)
      · rw [if_neg ha, if_neg hb] at h
        obtain ⟨hsum, hsigns⟩ := ofUnits_eq_zero h
        obtain ⟨rfl, rfl⟩ := Bool.and_eq_true_iff.mp hsigns
        have hunits : F.units a = 0 := by
          simp only [signed] at hsum
          grind
        exact congrArg (number true) (Fin.ext (units_eq_zero_iff.mp hunits))

/-! ## Natural numbers -/

theorem ofNat_eq (n : Nat) :
    (ofNat n : Binary F) = number false (F.round (n * F.unitsPerOne) 1) := by
  have hnat : (n : Int) * F.unitsPerOne = (n * F.unitsPerOne : Nat) := (Nat.cast_mul _ _).symm
  have hsign : (if ((n * F.unitsPerOne : Nat) : Int) = 0 then false
      else ((n * F.unitsPerOne : Nat) : Int) < 0) = false := by
    split
    · rfl
    · exact decide_eq_false (Int.natCast_nonneg _).not_gt
  rw [ofNat, ofFraction, hnat, ofUnits, hsign, Int.natAbs_natCast]

theorem value?_ofNat {n : Nat} (h : F.Holds n) : (ofNat n : Binary F).value? = some (n : ℚ) := by
  rw [ofNat_eq]
  apply value?_round Nat.one_pos h
  simp [signed]

/-- One, and how many units it has. -/
theorem exists_one_eq (h : F.Holds (1 : Nat)) :
    ∃ code, (one : Binary F) = number false code ∧ code.val ≠ 0 ∧ code.val ≠ F.infinity ∧
      F.units code = F.unitsPerOne := by
  obtain ⟨s, code, hone, hfinite, hvalue⟩ := exists_of_value? (value?_ofNat h)
  have hsigned : signed s (F.units code) = signed false F.unitsPerOne := by
    rw [Nat.cast_one, eq_div_iff (cast_unitsPerOne_pos F).ne', one_mul] at hvalue
    exact_mod_cast hvalue.symm
  have hunits : F.units code = F.unitsPerOne := eq_of_signed_eq hsigned
  have hne : code.val ≠ 0 := by
    intro hzero
    rw [units_eq_zero_iff.mpr hzero] at hunits
    exact F.unitsPerOne_pos.ne hunits
  have hs : s = false := by
    rw [ofNat_eq] at hone
    exact (number.inj hone).1.symm
  exact ⟨code, hs ▸ hone, hne, hfinite, hunits⟩

/-- A natural number that is not past one the format holds becomes a finite number, exact or not. -/
theorem exists_ofNat_eq {n m : Nat} (hpos : 0 < n) (hle : n ≤ m) (hone : F.Holds (1 : Nat))
    (hm : F.Holds m) :
    ∃ code, (ofNat n : Binary F) = number false code ∧ code.val ≠ 0 ∧ code.val ≠ F.infinity := by
  have hmono {i j : Nat} (h : i ≤ j) :
      (F.round (i * F.unitsPerOne) 1).val ≤ (F.round (j * F.unitsPerOne) 1).val :=
    Format.round_mono Nat.one_pos Nat.one_pos
      (Nat.mul_le_mul_right _ (Nat.mul_le_mul_right _ h))
  refine ⟨_, ofNat_eq n, ?_, ?_⟩
  · obtain ⟨code, hcode, hne, -⟩ := exists_one_eq hone
    rw [one, ofNat_eq] at hcode
    obtain rfl := (number.inj hcode).2
    exact Nat.pos_iff_ne_zero.mp (Nat.lt_of_lt_of_le (Nat.pos_of_ne_zero hne) (hmono hpos))
  · obtain ⟨s, code, hcode, hfinite, -⟩ := exists_of_value? (value?_ofNat hm)
    rw [ofNat_eq] at hcode
    obtain rfl := (number.inj hcode).2
    have hlt := Nat.lt_of_le_of_ne (Nat.le_of_lt_succ (Fin.isLt _)) hfinite
    exact (Nat.lt_of_le_of_lt (hmono hle) hlt).ne

theorem div_self (hone : F.Holds (1 : Nat)) {s : Bool} {code : Fin (F.infinity + 1)}
    (hcode : code.val ≠ 0) (hfinite : code.val ≠ F.infinity) :
    (number s code / number s code : Binary F) = one := by
  obtain ⟨oneCode, honeCode, -, -, hunits⟩ := exists_one_eq hone
  show div _ _ = _
  rw [div, if_neg hfinite, if_neg hfinite, if_neg hcode, honeCode, Bool.xor_self, ← hunits,
    Nat.mul_comm, Format.round_units oneCode (units_pos hcode)]

/-! ## Fused steps -/

/-- A step with progress zero ends where it starts. -/
theorem value?_mulAdd_zero {d : Binary F} (hd : d.value? = some b) (hx : x.value? = some a)
    (r : Bool) : (d.mulAdd (zero r) x).value? = some a := by
  have hheld : F.Holds a := ⟨x, hx⟩
  obtain ⟨s, code, rfl, hfinite, rfl⟩ := exists_of_value? hd
  obtain ⟨t, code', rfl, hfinite', rfl⟩ := exists_of_value? hx
  have hzero : (0 : Fin (F.infinity + 1)).val ≠ F.infinity := F.infinity_pos.ne
  have hunits : F.units (0 : Fin (F.infinity + 1)).val = 0 := units_eq_zero_iff.mpr rfl
  have hone := cast_unitsPerOne_pos F
  rw [zero, mulAdd, if_neg (not_or_intro hfinite hzero), if_neg hfinite']
  apply value?_ofUnits F.unitsPerOne_pos hheld
  rw [hunits, Nat.mul_zero, signed_zero, signed_mul]
  push_cast
  field_simp
  ring

theorem ofUnits_mul_right (zeroSign : Bool) (num : Int) (den : Nat) {c : Nat} (hc : 0 < c) :
    (ofUnits zeroSign (num * c) (den * c) : Binary F) = ofUnits zeroSign num den := by
  have hsign : (if num * (c : Int) = 0 then zeroSign else decide (num * (c : Int) < 0)) =
      if num = 0 then zeroSign else decide (num < 0) := by
    simp [hc, hc.ne', mul_neg_iff, (Int.natCast_nonneg c).not_gt]
  rw [ofUnits, ofUnits, hsign, Int.natAbs_mul, Int.natAbs_natCast, Format.round_mul_right _ _ hc]

/-- A step with progress one is a plain sum, whatever the numbers are. -/
theorem mulAdd_one (h : F.Holds (1 : Nat)) (x y : Binary F) : x.mulAdd one y = x + y := by
  obtain ⟨code, hone, hne, hfinite, hunits⟩ := exists_one_eq h
  rw [hone]
  show _ = add x y
  match x, y with
  | .nan, _ => rfl
  | .number s a, .nan => rfl
  | .number s a, .number t b =>
    have hfused : (ofUnits (s && t)
        (signed s (F.units a * F.units code) + signed t (F.units b * F.unitsPerOne))
        F.unitsPerOne : Binary F) =
          ofUnits (s && t) (signed s (F.units a) + signed t (F.units b)) 1 := by
      have hdone := ofUnits_mul_right (F := F) (s && t)
        (signed s (F.units a) + signed t (F.units b)) 1 F.unitsPerOne_pos
      rw [Nat.one_mul, Int.add_mul, ← signed_mul, ← signed_mul] at hdone
      rw [hunits, hdone]
    simp only [mulAdd, add, Bool.xor_false, hfused]
    by_cases ha : a.val = F.infinity
    · simp [ha, hne, F.infinity_pos.ne']
    · simp [ha, hfinite]

/-! ## Quotients -/

theorem exists_of_pos {side : Binary F} (hpos : zero false < side) (hlt : side < infinite false) :
    ∃ code, side = number false code ∧ code.val ≠ 0 ∧ code.val ≠ F.infinity := by
  cases side with
  | nan => cases hpos
  | number s code =>
    have hpos' : signed false 0 < signed s code := number_lt_number_iff.mp hpos
    have hlt' : signed s code < signed false F.infinity := number_lt_number_iff.mp hlt
    cases s with
    | false =>
      simp only [signed] at hpos' hlt'
      refine ⟨code, rfl, ?_, ?_⟩ <;> grind
    | true =>
      simp only [signed] at hpos'
      grind

/-- The code of a quotient by a positive finite number. -/
def quotientCode (den code : Fin (F.infinity + 1)) : Fin (F.infinity + 1) :=
  if code.val = F.infinity then Fin.last F.infinity
  else F.round (F.units code * F.unitsPerOne) (F.units den)

theorem number_div_number {den : Fin (F.infinity + 1)} (hden : den.val ≠ 0)
    (hfinite : den.val ≠ F.infinity) (s : Bool) (code : Fin (F.infinity + 1)) :
    number s code / number false den = number s (quotientCode den code) := by
  show div _ _ = _
  by_cases h : code.val = F.infinity
  · rw [div, if_pos h, if_neg hfinite, quotientCode, if_pos h, Bool.xor_false, infinite]
  · rw [div, if_neg h, if_neg hfinite, if_neg hden, quotientCode, if_neg h, Bool.xor_false]

theorem quotientCode_mono {den : Fin (F.infinity + 1)} (hden : den.val ≠ 0)
    {code code' : Fin (F.infinity + 1)} (h : code.val ≤ code'.val) :
    (quotientCode den code).val ≤ (quotientCode den code').val := by
  unfold quotientCode
  by_cases hlast : code'.val = F.infinity
  · rw [if_pos hlast]
    exact Nat.le_of_lt_succ (Fin.isLt _)
  · have hfinite : code.val ≠ F.infinity := by
      have := code'.isLt
      omega
    rw [if_neg hlast, if_neg hfinite]
    apply Format.round_mono (units_pos hden) (units_pos hden)
    exact Nat.mul_le_mul_right _ (Nat.mul_le_mul_right _ (Format.units_le_units_iff.mpr h))

theorem quotientCode_eq_zero {den code : Fin (F.infinity + 1)} (hden : den.val ≠ 0)
    (h : code.val = 0) : (quotientCode den code).val = 0 := by
  have hunits : F.units code = 0 := units_eq_zero_iff.mpr h
  have hpos : 0 < F.units den := units_pos hden
  have hround := Format.round_units code hpos
  rw [hunits, Nat.zero_mul] at hround
  rw [quotientCode, if_neg (h ▸ F.infinity_pos.ne), hunits, Nat.zero_mul, hround, h]

theorem zero_div_number {den : Fin (F.infinity + 1)} (hden : den.val ≠ 0)
    (hfinite : den.val ≠ F.infinity) (s : Bool) : zero s / number false den = zero s := by
  rw [zero, number_div_number hden hfinite]
  exact congrArg (number s) (Fin.ext (quotientCode_eq_zero hden rfl))

/-- A quotient by a positive finite number keeps the order of its numerators. -/
theorem div_le_div_right {side : Binary F} (hpos : zero false < side) (hlt : side < infinite false)
    (h : x ≤ y) : x / side ≤ y / side := by
  obtain ⟨den, rfl, hden, hfinite⟩ := exists_of_pos hpos hlt
  match x, y, h with
  | .number s a, .number t b, h =>
    rw [number_div_number hden hfinite, number_div_number hden hfinite, number_le_number_iff]
    exact signed_le_signed (quotientCode_mono hden) (quotientCode_mono hden)
      (quotientCode_eq_zero hden) (number_le_number_iff.mp h)

end Binary

namespace Format

variable {F : Format}

theorem holds_of_natAbs_lt {m : ℤ} {k : ℕ} (hm : m.natAbs < 2 ^ F.precision)
    (hk : k ≤ F.unitExponent) (hroom : F.unitExponent - k + 2 ≤ 2 ^ F.exponentBits - 1) :
    F.Holds (m / 2 ^ k) := by
  rw [two_pow_precision] at hm
  obtain ⟨code, hcode, hunits⟩ := exists_units_eq hm (F.unitExponent - k)
  have hlt : code < F.infinity := by
    rw [F.infinity_eq]
    exact Nat.lt_of_lt_of_le hcode (Nat.mul_le_mul_right _ hroom)
  refine ⟨.number (m < 0) ⟨code, Nat.lt_succ_of_lt hlt⟩, ?_⟩
  rw [Binary.value?_number hlt.ne, hunits, Binary.signed_mul]
  have hsigned : Binary.signed (m < 0) m.natAbs = m := by
    unfold Binary.signed
    grind
  have hone : (F.unitsPerOne : ℚ) = 2 ^ (F.unitExponent - k) * 2 ^ k := by
    rw [F.unitsPerOne_eq, ← pow_add, Nat.sub_add_cancel hk]
    exact Nat.cast_pow 2 F.unitExponent
  rw [hsigned, hone]
  push_cast
  field_simp

end Format

end OrbPuzzle
