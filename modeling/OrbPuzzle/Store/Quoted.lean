/-!
# Quoted strings

In a store document a string stands between double quotes. A quote, a backslash and every control
character is written as an escape; all else stands for itself.

## Reading in two passes

`scan` finds the end of a string and splits it into pieces, and checks each escape on its own.
`assemble` turns the pieces into characters; here the sixteen-bit codes of escapes have to pair up.
A string that nobody keeps is only scanned.
-/

namespace OrbPuzzle.Quoted

/-! ## Writing -/

/-- A hexadecimal digit, in lower case. -/
def hexDigit (n : Nat) : Char := "0123456789abcdef".toList.getD n '0'

/-- A character as it is written between quotes. -/
def escape (c : Char) : List Char :=
  match c with
  | '"' => ['\\', '"']
  | '\\' => ['\\', '\\']
  | '\x08' => ['\\', 'b']
  | '\x0c' => ['\\', 'f']
  | '\n' => ['\\', 'n']
  | '\r' => ['\\', 'r']
  | '\t' => ['\\', 't']
  | c =>
    if c.toNat < 0x20 then
      ['\\', 'u', '0', '0', hexDigit (c.toNat / 16), hexDigit (c.toNat % 16)]
    else [c]

/-- A string in quotes. -/
def encode (s : String) : List Char := '"' :: s.toList.flatMap escape ++ ['"']

/-! ## Scanning -/

/-- A piece of a quoted string: a character, or the sixteen-bit code of an escape. -/
inductive Piece where
  | char (c : Char)
  | code (unit : Nat)
deriving DecidableEq, Repr

/-- The value of a hexadecimal digit of either case. -/
def hexValue? (c : Char) : Option Nat :=
  if '0' ≤ c ∧ c ≤ '9' then some (c.toNat - '0'.toNat)
  else if 'a' ≤ c ∧ c ≤ 'f' then some (c.toNat - 'a'.toNat + 10)
  else if 'A' ≤ c ∧ c ≤ 'F' then some (c.toNat - 'A'.toNat + 10)
  else none

/-- The value of four hexadecimal digits. -/
def code? (a b c d : Char) : Option Nat := do
  return (((← hexValue? a) * 16 + (← hexValue? b)) * 16 + (← hexValue? c)) * 16 + (← hexValue? d)

/-- The character that a backslash and one letter stand for. -/
def letter? : Char → Option Char
  | '"' => some '"'
  | '\\' => some '\\'
  | '/' => some '/'
  | 'b' => some '\x08'
  | 'f' => some '\x0c'
  | 'n' => some '\n'
  | 'r' => some '\r'
  | 't' => some '\t'
  | _ => none

/-- The pieces of a string whose opening quote has been read, and what follows its closing quote.
There is no result if the string does not end, holds a bare control character or a bad escape. -/
def scan : List Char → Option (List Piece × List Char)
  | [] => none
  | '"' :: rest => some ([], rest)
  | '\\' :: 'u' :: a :: b :: c :: d :: rest => do
    let unit ← code? a b c d
    let (pieces, rest) ← scan rest
    return (.code unit :: pieces, rest)
  | '\\' :: c :: rest => do
    let c ← letter? c
    let (pieces, rest) ← scan rest
    return (.char c :: pieces, rest)
  | c :: rest =>
    if c.toNat < 0x20 then none
    else do
      let (pieces, rest) ← scan rest
      return (.char c :: pieces, rest)

/-! ## Assembling -/

/-- The first half of a pair of codes. -/
def IsLeading (unit : Nat) : Prop := 0xd800 ≤ unit ∧ unit < 0xdc00

/-- The second half of a pair of codes. -/
def IsTrailing (unit : Nat) : Prop := 0xdc00 ≤ unit ∧ unit < 0xe000

instance (unit : Nat) : Decidable (IsLeading unit) := inferInstanceAs (Decidable (_ ∧ _))

instance (unit : Nat) : Decidable (IsTrailing unit) := inferInstanceAs (Decidable (_ ∧ _))

/-- The character that a pair of codes stands for. -/
def pairChar (leading trailing : Nat) : Char :=
  .ofNat (0x10000 + (leading - 0xd800) * 0x400 + (trailing - 0xdc00))

/-- The characters of the pieces. There is no result if half of a pair stands alone. -/
def assemble : List Piece → Option (List Char)
  | [] => some []
  | .char c :: rest => (c :: ·) <$> assemble rest
  | .code unit :: .code next :: rest =>
    if IsLeading unit then
      if IsTrailing next then (pairChar unit next :: ·) <$> assemble rest else none
    else if IsTrailing unit then none
    else (.ofNat unit :: ·) <$> assemble (.code next :: rest)
  | .code unit :: rest =>
    if IsLeading unit ∨ IsTrailing unit then none
    else (.ofNat unit :: ·) <$> assemble rest

/-- The string whose opening quote has been read, and what follows its closing quote. -/
def decode (cs : List Char) : Option (String × List Char) := do
  let (pieces, rest) ← scan cs
  let chars ← assemble pieces
  return (.ofList chars, rest)

end OrbPuzzle.Quoted
