import OrbPuzzle.Store.File

/-!
# The host

What a game needs from the machine it runs on: the size of the screen, and a store that remembers
the high score.

## The high score as text

The high score is stored in decimal. What is read may have blanks around it and a plus sign in
front; anything else, and a number that is too large, counts as zero. A score that cannot be stored
is still the high score of the running game.
-/

namespace OrbPuzzle

namespace Score

/-- The largest score: scores are counted in 32 bits. -/
def limit : Nat := UInt32.size - 1

/-- White space: the characters that may stand around a stored score. -/
def isBlank (c : Char) : Bool :=
  let n := c.toNat
  (0x9 ≤ n && n ≤ 0xd) || n == 0x20 || n == 0x85 || n == 0xa0 || n == 0x1680
    || (0x2000 ≤ n && n ≤ 0x200a) || n == 0x2028 || n == 0x2029 || n == 0x202f || n == 0x205f
    || n == 0x3000

/-- Text without the white space at its two ends. -/
def trim (cs : List Char) : List Char :=
  ((cs.dropWhile isBlank).reverse.dropWhile isBlank).reverse

/-- The value of decimal digits. -/
def digitsValue (cs : List Char) : Nat :=
  cs.foldl (fun value c => 10 * value + (c.toNat - '0'.toNat)) 0

/-- The score that a text stands for: one decimal digit or more, up to the largest score, with a
plus sign in front or without. -/
def parse? (text : String) : Option Nat :=
  let digits := match trim text.toList with
    | '+' :: rest => rest
    | cs => cs
  if !digits.isEmpty && digits.all Char.isDigit && digitsValue digits ≤ limit then
    some (digitsValue digits)
  else none

/-- The key under which the high score is stored. -/
def key : String := "HighScore"

end Score

/-- The machine a game runs on. -/
structure Host (σ : Type) where
  store : σ
  screenWidth : Nat := 320
  screenHeight : Nat := 480

namespace Host

variable {σ : Type} [Store σ]

/-- The stored high score. -/
def highScore (h : Host σ) : Nat :=
  match Store.get h.store Score.key with
  | .ok (some text) => (Score.parse? text).getD 0
  | _ => 0

/-- Stores a high score, as far as the store lets it, and gives it back. -/
def setHighScore (h : Host σ) (score : Nat) : Nat × Host σ :=
  (score, { h with store := (Store.set h.store Score.key (toString score)).1 })

/-- A host that forgets everything when the program ends. -/
def inMemory : Host MemoryStore := { store := {} }

/-- The file in which the high score is kept. -/
def storeFile : String := "orb_quest_store.json"

/-- The usual host: the high score is kept in a file, or in memory if the file cannot be opened. -/
def standard (disk : Disk) : Host (FileStore ⊕ MemoryStore) :=
  match FileStore.open? storeFile disk with
  | .ok store => { store := .inl store }
  | .error _ => { store := .inr {} }

end Host

end OrbPuzzle
