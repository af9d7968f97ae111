/-!
# Binary interchange formats

A format is a significand precision and an exponent width. Every finite magnitude of a format is a
whole number of its smallest positive magnitude, the *unit*, so exact sums, products and quotients
are statements about natural numbers, and rounding is the only approximate step.

## Codes

A magnitude is stored as its *code*: the bit pattern without the sign. Codes are consecutive: the
next larger magnitude has the next code, and the code after the largest finite magnitude stands for
infinity. `Format.units` reads a code as a number of units; `Format.round` goes back, to the nearest
code, and on a tie to the even one.
-/

namespace OrbPuzzle

/-- The quotient `num / den` rounded to the nearest natural number, a half to the even neighbour. -/
def nearestEven (num den : Nat) : Nat :=
  let quotient := num / den
  let twice := 2 * (num % den)
  if twice < den then quotient
  else if den < twice then quotient + 1
  else quotient + quotient % 2

/-- A binary floating-point format. The numbers that follow from its precision and exponent width
are kept with it, because every operation needs them. -/
structure Format where
  /-- Bits of the significand, the leading one included. -/
  precision : Nat
  /-- Bits of the exponent field. -/
  exponentBits : Nat
  /-- The number of codes that share one exponent. -/
  binade : Nat := Nat.pow 2 (precision - 1)
  /-- The smallest positive magnitude, the unit, is two to the minus this power. -/
  unitExponent : Nat := Nat.pow 2 (exponentBits - 1) + precision - 3
  /-- How many units make one. -/
  unitsPerOne : Nat := Nat.pow 2 unitExponent
  /-- The code of infinity, the largest code of all. -/
  infinity : Nat := (Nat.pow 2 exponentBits - 1) * binade
  two_le_precision : 2 ≤ precision := by decide
  two_le_exponentBits : 2 ≤ exponentBits := by decide
  binade_eq : binade = Nat.pow 2 (precision - 1) := by rfl
  unitExponent_eq : unitExponent = Nat.pow 2 (exponentBits - 1) + precision - 3 := by rfl
  unitsPerOne_eq : unitsPerOne = Nat.pow 2 unitExponent := by rfl
  infinity_eq : infinity = (Nat.pow 2 exponentBits - 1) * binade := by rfl

namespace Format

/-- Thirty-two bits: 24 of precision and 8 of exponent. -/
def single : Format := { precision := 24, exponentBits := 8 }

/-- Sixty-four bits: 53 of precision and 11 of exponent. -/
def double : Format := { precision := 53, exponentBits := 11 }

/-- The weight of the sign bit. -/
def signBit (F : Format) : Nat := Nat.pow 2 (F.exponentBits + F.precision - 1)

/-- The magnitude a finite code stands for, in units. Codes below one binade are subnormal and count
units directly; each binade above doubles the step. -/
def units (F : Format) (code : Nat) : Nat :=
  let exponent := code / F.binade
  if exponent = 0 then code
  else (F.binade + code % F.binade) * Nat.pow 2 (exponent - 1)

/-- The code nearest to `num / den` units. The excess bits beyond the precision are dropped by
rounding the quotient once; a magnitude past the largest finite one becomes infinity. -/
def round (F : Format) (num den : Nat) : Fin (F.infinity + 1) :=
  let excess := (num / den).log2 + 1 - F.precision
  ⟨min F.infinity (excess * F.binade + nearestEven num (den * Nat.pow 2 excess)),
    Nat.lt_succ_of_le (Nat.min_le_left _ _)⟩

end Format

end OrbPuzzle
