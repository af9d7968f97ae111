import OrbPuzzle.Binary.Format

/-!
# Binary floating-point numbers

A number of a format is a sign and a magnitude code, or the one not-a-number. Two zeros exist; they
are different numbers that compare equal.

## Order

Codes grow with the magnitudes they stand for, infinity included, so numbers are compared by their
signed code, `Binary.rank`. Not-a-number has no rank and is neither below, above nor equal to
anything.
-/

namespace OrbPuzzle

/-- A floating-point number of the format `F`. -/
inductive Binary (F : Format) where
  | nan
  | number (negative : Bool) (code : Fin (F.infinity + 1))
deriving DecidableEq

/-- Thirty-two-bit numbers: positions, scales and pixels. -/
abbrev Single := Binary .single

/-- Sixty-four-bit numbers: fractions of time. -/
abbrev Double := Binary .double

namespace Binary

variable {F G : Format}

/-- A zero of either sign. -/
def zero (negative : Bool) : Binary F := .number negative 0

/-- An infinity of either sign. -/
def infinite (negative : Bool) : Binary F := .number negative (Fin.last F.infinity)

instance : Inhabited (Binary F) := ⟨zero false⟩

/-! ## Bit patterns -/

/-- The number with a given bit pattern. Every pattern past infinity is not-a-number. -/
def ofBits (bits : Nat) : Binary F :=
  let code := bits % F.signBit
  if h : code < F.infinity + 1 then .number (F.signBit ≤ bits) ⟨code, h⟩ else .nan

/-- The bit pattern of a number; not-a-number has many and shows none. -/
def toBits? : Binary F → Option Nat
  | .nan => none
  | .number negative code => some (if negative then F.signBit + code else code)

/-! ## Order -/

/-- The signed code, by which numbers are ordered. -/
def rank : Binary F → Option Int
  | .nan => none
  | .number negative code => some (if negative then -(code.val : Int) else code.val)

/-- Whether one number is below another. -/
def less (x y : Binary F) : Bool :=
  match x.rank, y.rank with
  | some a, some b => a < b
  | _, _ => false

/-- Whether one number is below or equal to another. -/
def atMost (x y : Binary F) : Bool :=
  match x.rank, y.rank with
  | some a, some b => a ≤ b
  | _, _ => false

/-- Whether two numbers are numerically equal: the zeros are, not-a-number never is. -/
def equal (x y : Binary F) : Bool :=
  match x.rank, y.rank with
  | some a, some b => a = b
  | _, _ => false

instance : LT (Binary F) := ⟨fun x y => x.less y = true⟩

instance : LE (Binary F) := ⟨fun x y => x.atMost y = true⟩

instance (x y : Binary F) : Decidable (x < y) := inferInstanceAs (Decidable (x.less y = true))

instance (x y : Binary F) : Decidable (x ≤ y) := inferInstanceAs (Decidable (x.atMost y = true))

end Binary

end OrbPuzzle
