import OrbPuzzle.Store.Basic
import OrbPuzzle.Store.Skip

/-!
# Store documents

A store is written as a document: an object whose one field, `entries`, is an object of strings, in
the order of their keys, laid out over lines with an indent of two spaces.

## Reading

Reading takes more than writing gives: any layout, other fields before and after `entries`, an
absent `entries` for an empty store, and the short form, a list that is empty or holds just the
entries. A key that is repeated among the entries keeps its last value; a second `entries` field is
refused.
-/

namespace OrbPuzzle.Document

/-! ## Writing -/

/-- One entry on a line of its own. -/
def renderEntry (entry : String × String) : List Char :=
  "\n    ".toList ++ Quoted.encode entry.1 ++ [':', ' '] ++ Quoted.encode entry.2

/-- The object of the entries. -/
def renderEntries : List (String × String) → List Char
  | [] => ['\x7b', '\x7d']
  | entry :: rest =>
    '\x7b' :: renderEntry entry ++ rest.flatMap (fun entry => ',' :: renderEntry entry) ++
      "\n  \x7d".toList

/-- The document of some entries. -/
def render (entries : Entries) : String :=
  .ofList ("\x7b\n  \"entries\": ".toList ++ renderEntries entries.toList ++ "\n\x7d".toList)

/-! ## Reading -/

/-- Reads a string, after any blanks. -/
def string? (cs : List Char) : Option (String × List Char) :=
  match dropBlanks cs with
  | '"' :: rest => Quoted.decode rest
  | _ => none

/-- Reads a member's name and the colon after it. -/
def name? (cs : List Char) : Option (String × List Char) := do
  let (name, rest) ← string? cs
  return (name, ← expect? [':'] (dropBlanks rest))

/-- Reads entries up to the brace that closes them; there is at least one, and at most `fuel`. -/
def entries? : Nat → List Char → Option (List (String × String) × List Char)
  | 0, _ => none
  | fuel + 1, cs => do
    let (key, cs) ← name? cs
    let (value, cs) ← string? cs
    match dropBlanks cs with
    | ',' :: rest =>
      let (more, rest) ← entries? fuel rest
      return ((key, value) :: more, rest)
    | '\x7d' :: rest => return ([(key, value)], rest)
    | _ => none

/-- Reads the object of the entries. -/
def entriesObject? (cs : List Char) : Option (List (String × String) × List Char) :=
  match dropBlanks cs with
  | '\x7b' :: rest =>
    match dropBlanks rest with
    | '\x7d' :: rest => some ([], rest)
    | _ => entries? rest.length rest
  | _ => none

/-- Reads the fields of a document up to the brace that closes it; there is at least one, and at
most `fuel`. Carries the entries, once they were found. -/
def fields? : Nat → Option (List (String × String)) → List Char →
    Option (Option (List (String × String)) × List Char)
  | 0, _, _ => none
  | fuel + 1, found, cs => do
    let (name, cs) ← name? cs
    let (found, cs) ←
      if name = "entries" then
        match found with
        | some _ => none
        | none => (entriesObject? cs).map fun (entries, rest) => (some entries, rest)
      else (Skip.value fuel cs).map (found, ·)
    match dropBlanks cs with
    | ',' :: rest => fields? fuel found rest
    | '\x7d' :: rest => return (found, rest)
    | _ => none

/-- Reads the entries of a document, in either form. -/
def body? (cs : List Char) : Option (List (String × String) × List Char) :=
  match dropBlanks cs with
  | '\x7b' :: rest =>
    match dropBlanks rest with
    | '\x7d' :: rest => some ([], rest)
    | _ => (fields? rest.length none rest).map fun (found, rest) => (found.getD [], rest)
  | '[' :: rest =>
    match dropBlanks rest with
    | ']' :: rest => some ([], rest)
    | _ => do
      let (entries, rest) ← entriesObject? rest
      return (entries, ← expect? [']'] (dropBlanks rest))
  | _ => none

/-- The entries of a document. There is no result if the text is not a document from end to end. -/
def parse? (text : String) : Option Entries := do
  let (entries, rest) ← body? text.toList
  if (dropBlanks rest).isEmpty then return .ofList entries else none

end OrbPuzzle.Document
