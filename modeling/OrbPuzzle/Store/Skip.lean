import OrbPuzzle.Store.Quoted

/-!
# Passing over values

A store document may hold fields that nobody asks for. Their values are passed over, but they still
have to be well formed: a string, a number, a constant, a list or an object, nested to any depth.

## Brackets

`Skip.value` keeps the brackets that are open, innermost first, instead of calling itself for each
nested value; the value is passed once none is open.
-/

namespace OrbPuzzle

/-- The text after any blanks it starts with: spaces, tabs and line ends. -/
def dropBlanks (cs : List Char) : List Char :=
  cs.dropWhile fun c => c == ' ' || c == '\n' || c == '\t' || c == '\r'

/-- What follows an expected piece of text, if the text starts with it. -/
def expect? (expected : List Char) (cs : List Char) : Option (List Char) :=
  if expected.isPrefixOf cs then some (cs.drop expected.length) else none

namespace Skip

/-! ## Numbers and constants -/

/-- Passes one decimal digit or more. -/
def digits (cs : List Char) : Option (List Char) :=
  match cs with
  | c :: rest => if c.isDigit then some (rest.dropWhile Char.isDigit) else none
  | [] => none

/-- Passes the whole part of a number, which has no leading zeros. -/
def whole (cs : List Char) : Option (List Char) :=
  match cs with
  | '0' :: c :: rest => if c.isDigit then none else some (c :: rest)
  | cs => digits cs

/-- Passes the fraction of a number, if there is one. -/
def fraction (cs : List Char) : Option (List Char) :=
  match cs with
  | '.' :: rest => digits rest
  | cs => some cs

/-- Passes the exponent of a number, if there is one. -/
def exponent (cs : List Char) : Option (List Char) :=
  match cs with
  | c :: rest =>
    if c == 'e' || c == 'E' then
      match rest with
      | '+' :: rest => digits rest
      | '-' :: rest => digits rest
      | rest => digits rest
    else some (c :: rest)
  | [] => some []

/-- Passes a number. -/
def number (cs : List Char) : Option (List Char) := do
  let cs := match cs with
    | '-' :: rest => rest
    | cs => cs
  exponent (← fraction (← whole cs))

/-- Passes a value without parts: a string, a constant or a number. -/
def atom (cs : List Char) : Option (List Char) :=
  match cs with
  | '"' :: rest => (Quoted.scan rest).map (·.2)
  | 'n' :: rest => expect? ['u', 'l', 'l'] rest
  | 't' :: rest => expect? ['r', 'u', 'e'] rest
  | 'f' :: rest => expect? ['a', 'l', 's', 'e'] rest
  | cs => number cs

/-! ## Lists and objects -/

/-- A bracket that is open. -/
inductive Bracket where
  | list
  | object
deriving DecidableEq, Repr

/-- The character that closes a bracket. -/
def Bracket.closing : Bracket → Char
  | .list => ']'
  | .object => '\x7d'

/-- Passes the brackets that close after a value, innermost first, up to a comma or to the last.
Gives what is still open. -/
def closeBrackets (opened : List Bracket) (cs : List Char) : Option (List Bracket × List Char) :=
  match opened with
  | [] => some ([], cs)
  | bracket :: outer =>
    match dropBlanks cs with
    | ',' :: rest => some (bracket :: outer, rest)
    | c :: rest => if c = bracket.closing then closeBrackets outer rest else none
    | [] => none

/-- Passes the name and the colon of an object's member. -/
def memberName (cs : List Char) : Option (List Char) :=
  match dropBlanks cs with
  | '"' :: rest => do
    let (_, rest) ← Quoted.scan rest
    expect? [':'] (dropBlanks rest)
  | _ => none

/-- Passes what stands before the next value inside the innermost bracket. -/
def beforeItem (opened : List Bracket) (cs : List Char) : Option (List Char) :=
  match opened with
  | .object :: _ => memberName cs
  | _ => some cs

/-- Goes on after an opening bracket: an empty pair closes at once, and any other stays open in
front of its first value. -/
def openBracket (bracket : Bracket) (opened : List Bracket) (cs : List Char) :
    Option (List Bracket × List Char) :=
  match dropBlanks cs with
  | c :: rest =>
    if c = bracket.closing then closeBrackets opened rest else some (bracket :: opened, cs)
  | [] => none

/-- Passes an opening bracket or a value without parts, and then whatever closes after it. Gives
what is open in front of the next value. -/
def item (opened : List Bracket) (cs : List Char) : Option (List Bracket × List Char) :=
  match dropBlanks cs with
  | '[' :: rest => openBracket .list opened rest
  | '\x7b' :: rest => openBracket .object opened rest
  | cs => do closeBrackets opened (← atom cs)

/-- Passes values until no bracket is open, at most `fuel` of them. -/
def values : Nat → List Bracket → List Char → Option (List Char)
  | 0, _, _ => none
  | fuel + 1, opened, cs => do
    let (opened, rest) ← item opened (← beforeItem opened cs)
    if opened.isEmpty then return rest else values fuel opened rest

/-- Passes one value of any kind. Every round reads a character, so any number from the length of
the text on is fuel enough. -/
def value (fuel : Nat) (cs : List Char) : Option (List Char) := values fuel [] cs

end Skip

end OrbPuzzle
