import OrbPuzzle.Generator

/-!
# Orb colours

The three colours of the game, and palettes: one value for each colour.
-/

namespace OrbPuzzle

/-- The colour of an orb. -/
inductive Color where
  | red
  | blue
  | green
deriving DecidableEq, Repr

namespace Color

instance : Inhabited Color := ⟨.red⟩

/-- Every colour, in the order in which they are numbered. -/
def all : List Color := [.red, .blue, .green]

/-- The colour's name. -/
def name : Color → String
  | .red => "red"
  | .blue => "blue"
  | .green => "green"

/-- Where the image of an orb of this colour is found. -/
def imagePath (c : Color) : String := "images/" ++ c.name ++ "_orb.png"

/-- A random colour, each as likely as the others, and the generator after the draw. -/
def random (g : Generator) : Color × Generator :=
  let (index, g) := g.below all.length
  (all.getD index default, g)

/-- So many random colours, one after the other, and the generator after them. -/
def randomList : Nat → Generator → List Color × Generator
  | 0, g => ([], g)
  | n + 1, g =>
    let draw := random g
    let rest := randomList n draw.2
    (draw.1 :: rest.1, rest.2)

end Color

/-- One value for each colour. -/
structure Palette (α : Type) where
  red : α
  blue : α
  green : α
deriving DecidableEq, Repr

namespace Palette

variable {α β : Type}

/-- The same value for every colour. -/
def uniform (a : α) : Palette α := ⟨a, a, a⟩

/-- The value for a colour. -/
def get (p : Palette α) : Color → α
  | .red => p.red
  | .blue => p.blue
  | .green => p.green

/-- The palette with another value for one colour. -/
def set (p : Palette α) (c : Color) (a : α) : Palette α :=
  match c with
  | .red => { p with red := a }
  | .blue => { p with blue := a }
  | .green => { p with green := a }

@[simp]
theorem get_set_self (p : Palette α) (c : Color) (a : α) : (p.set c a).get c = a := by
  cases c <;> rfl

theorem get_set_of_ne (p : Palette α) {c d : Color} (a : α) (h : d ≠ c) :
    (p.set c a).get d = p.get d := by
  cases c <;> cases d <;> grind [set, get]

/-- Two palettes combined colour by colour. -/
def zipWith {γ : Type} (f : α → β → γ) (p : Palette α) (q : Palette β) : Palette γ :=
  ⟨f p.red q.red, f p.blue q.blue, f p.green q.green⟩

@[simp]
theorem get_zipWith {γ : Type} (f : α → β → γ) (p : Palette α) (q : Palette β) (c : Color) :
    (p.zipWith f q).get c = f (p.get c) (q.get c) := by
  cases c <;> rfl

end Palette

end OrbPuzzle
