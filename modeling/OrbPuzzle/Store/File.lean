import OrbPuzzle.Store.Disk
import OrbPuzzle.Store.Document

/-!
# Stores in a file

A file store holds its entries in memory and writes the whole document on every change.

## Failed writes

A change is made in memory first. If the file then cannot be written the change stays in memory, and
the next successful write brings it to the file.
-/

namespace OrbPuzzle

/-- A store kept in a file. -/
structure FileStore where
  path : String
  contents : MemoryStore
  disk : Disk

namespace FileStore

/-- Opens the store at a path. Where there is no file the store is empty. -/
def open? (path : String) (disk : Disk) : Except StoreError FileStore :=
  match disk.read with
  | .error .notFound => .ok { path, contents := {}, disk }
  | .error e => .error (.disk path e)
  | .ok text =>
    match Document.parse? text with
    | some entries => .ok { path, contents := { entries }, disk }
    | none => .error .malformed

/-- Keeps a value under a key and writes the file. -/
def insert (s : FileStore) (key value : String) : FileStore × Except StoreError Unit :=
  let contents := s.contents.insert key value
  let (disk, result) := s.disk.write (Document.render contents.entries)
  ({ s with contents, disk }, result.mapError (.disk s.path))

instance : Store FileStore where
  get s key := .ok (s.contents.get? key)
  set s key value := s.insert key value

end FileStore

end OrbPuzzle
