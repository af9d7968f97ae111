import OrbPuzzle.Store.Basic

/-!
# Places on disk

A `Disk` is what one path shows: nothing, a folder, a file, or an obstacle on the way there, and
whether a file can be written.

## Paths in an empty folder

`Disk.vacant` is what a path shows when the working folder is empty. The names of a path are taken
one by one; empty names and `.` stay where they are, and `..` goes up. The first other name is not
there. If it is the last of the path, a file of that name can be made, unless a slash after it asks
for a folder; if more follows, the path leads nowhere. A path without such a name is a folder.
-/

namespace OrbPuzzle

/-- What a path leads to. -/
inductive Node where
  | absent
  | folder
  | file (bytes : ByteArray)
  /-- The path cannot be followed to its end. -/
  | blocked (cause : DiskError)

/-- A path's place on disk: what is there, and what writing a file there is refused with. -/
structure Disk where
  node : Node := .absent
  refusal : Option DiskError := none

namespace Disk

/-- The text of the file. -/
def read (d : Disk) : Except DiskError String :=
  match d.node with
  | .absent => .error .notFound
  | .folder => .error .isDirectory
  | .file bytes =>
    match String.fromUTF8? bytes with
    | some text => .ok text
    | none => .error .notText
  | .blocked cause => .error cause

/-- Writes the text of the file. A refused write leaves what is there. -/
def write (d : Disk) (text : String) : Disk × Except DiskError Unit :=
  match d.refusal, d.node with
  | some e, _ => (d, .error e)
  | none, .folder => (d, .error .isDirectory)
  | none, .blocked cause => (d, .error cause)
  | none, _ => ({ d with node := .file text.toUTF8 }, .ok ())

/-! ## Paths -/

/-- The most bytes a name may have. -/
def nameLimit : Nat := 255

/-- The most bytes a path may have. -/
def pathLimit : Nat := 4095

/-- The names of a path, in order, without the empty ones that repeated slashes leave. -/
def names (path : String) : List String :=
  ((path.toList.splitOn '/').map String.ofList).filter (· ≠ "")

/-- What a name that is not there shows. -/
def missing (name : String) : Node :=
  if nameLimit < name.utf8ByteSize then .blocked .nameTooLong else .absent

/-- A place in an empty working folder. -/
def vacant (path : String) : Disk :=
  if '\x00' ∈ path.toList then { node := .blocked .nulInPath }
  else if path = "" then { node := .blocked .notFound }
  else if pathLimit < path.utf8ByteSize then { node := .blocked .nameTooLong }
  else
    match (names path).dropWhile (· ∈ [".", ".."]) with
    | [] => { node := .folder }
    | [name] =>
      { node := missing name
        refusal := if path.toList.getLast? = some '/' then some .isDirectory else none }
    | name :: _ =>
      match missing name with
      | .absent => { node := .blocked .notFound }
      | node => { node }

end Disk

end OrbPuzzle
