import OrbPuzzle.Binary.Basic

/-!
# Correctly rounded arithmetic

Each operation computes its exact result in units of the format and rounds once, to nearest with
ties to even. Infinities and not-a-number are decided first; what is left is finite.

## Signs of zero

A product or quotient has the sign of its factors, also when it is zero or rounds to zero. A sum
that is exactly zero is negative only if both of its terms are; a nonzero sum keeps its sign even
when it rounds to zero.
-/

namespace OrbPuzzle.Binary

variable {F G : Format}

/-- A natural number with a sign. -/
def signed (negative : Bool) (n : Nat) : Int := if negative then -(n : Int) else n

/-- The number nearest to `num / den` units. An exact zero takes the sign `zeroSign`. -/
def ofUnits (zeroSign : Bool) (num : Int) (den : Nat) : Binary F :=
  .number (if num = 0 then zeroSign else num < 0) (F.round num.natAbs den)

/-- The number nearest to the fraction `num / den`. -/
def ofFraction (num : Int) (den : Nat) : Binary F :=
  ofUnits false (num * F.unitsPerOne) den

/-- The number nearest to a natural number. -/
def ofNat (n : Nat) : Binary F := ofFraction n 1

/-- The number with the opposite sign. -/
def neg : Binary F → Binary F
  | .nan => .nan
  | .number negative code => .number (!negative) code

/-- The sum, rounded once. -/
def add : Binary F → Binary F → Binary F
  | .number s a, .number t b =>
    if a.val = F.infinity then
      if b.val = F.infinity ∧ s ≠ t then .nan else infinite s
    else if b.val = F.infinity then infinite t
    else ofUnits (s && t) (signed s (F.units a) + signed t (F.units b)) 1
  | _, _ => .nan

/-- The difference: the sum with the opposite of the second number. -/
def sub (x y : Binary F) : Binary F := add x (neg y)

/-- The product, rounded once. -/
def mul : Binary F → Binary F → Binary F
  | .number s a, .number t b =>
    if a.val = F.infinity ∨ b.val = F.infinity then
      if a.val = 0 ∨ b.val = 0 then .nan else infinite (s ^^ t)
    else .number (s ^^ t) (F.round (F.units a * F.units b) F.unitsPerOne)
  | _, _ => .nan

/-- The quotient, rounded once. Dividing by zero gives infinity, and zero by zero not-a-number. -/
def div : Binary F → Binary F → Binary F
  | .number s a, .number t b =>
    if a.val = F.infinity then
      if b.val = F.infinity then .nan else infinite (s ^^ t)
    else if b.val = F.infinity then zero (s ^^ t)
    else if b.val = 0 then
      if a.val = 0 then .nan else infinite (s ^^ t)
    else .number (s ^^ t) (F.round (F.units a * F.unitsPerOne) (F.units b))
  | _, _ => .nan

/-- The product of the first two numbers plus the third, rounded only once. -/
def mulAdd : Binary F → Binary F → Binary F → Binary F
  | .number s a, .number t b, .number u c =>
    if a.val = F.infinity ∨ b.val = F.infinity then
      if a.val = 0 ∨ b.val = 0 then .nan
      else if c.val = F.infinity ∧ (s ^^ t) ≠ u then .nan
      else infinite (s ^^ t)
    else if c.val = F.infinity then infinite u
    else
      ofUnits ((s ^^ t) && u)
        (signed (s ^^ t) (F.units a * F.units b) + signed u (F.units c * F.unitsPerOne))
        F.unitsPerOne
  | _, _, _ => .nan

/-- The nearest number of another format. -/
def convert : Binary F → Binary G
  | .nan => .nan
  | .number s a =>
    if a.val = F.infinity then infinite s
    else .number s (G.round (F.units a * G.unitsPerOne) F.unitsPerOne)

instance : Neg (Binary F) := ⟨neg⟩
instance : Add (Binary F) := ⟨add⟩
instance : Sub (Binary F) := ⟨sub⟩
instance : Mul (Binary F) := ⟨mul⟩
instance : Div (Binary F) := ⟨div⟩

/-- The number one. -/
def one : Binary F := ofNat 1

/-- Half of a number. -/
def half (x : Binary F) : Binary F := x / ofNat 2

end OrbPuzzle.Binary
