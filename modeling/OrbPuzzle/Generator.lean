/-!
# Random numbers

A generator is a 64-bit counter. A draw moves the counter on by an odd constant, multiplies it with
a scrambled copy of itself to 128 bits and folds the two halves of the product together.

## Numbers below a bound

`Generator.below` scales a draw to the bound: the result is the high half of the draw times the
bound. Draws whose low half falls short of the excess of `2^64` over a multiple of the bound are
taken again, which makes every result equally likely.
-/

namespace OrbPuzzle

/-- The state of a random number generator. -/
structure Generator where
  state : UInt64
deriving DecidableEq, Repr

namespace Generator

/-- The high and the low 64 bits of a natural number below `2^128`. -/
def halves (n : Nat) : Nat × Nat := (n / UInt64.size, n % UInt64.size)

/-- A draw of 64 bits, and the generator after it. -/
def next (g : Generator) : Nat × Generator :=
  let state := g.state + 0x2d358dccaa6c78a5
  let (high, low) := halves (state.toNat * (state ^^^ 0x8bb84b93962eacc9).toNat)
  (low ^^^ high, ⟨state⟩)

/-- Draws until the low half of the scaled draw reaches `least`, at most `tries` times more, and
gives the high half. -/
def redraw (bound least : Nat) : Nat → Nat → Generator → Nat × Generator
  | 0, draw, g => ((halves (draw * bound)).1, g)
  | tries + 1, draw, g =>
    let (high, low) := halves (draw * bound)
    if low < least then
      let (draw, g) := g.next
      redraw bound least tries draw g
    else (high, g)

/-- A number below `bound`, and the generator after it. The counter passes through all of its `2^64`
states before it repeats, so that many tries are never used up. -/
def below (bound : Nat) (g : Generator) : Nat × Generator :=
  let (draw, g) := g.next
  redraw bound ((UInt64.size - bound) % bound) UInt64.size draw g

end Generator

end OrbPuzzle
