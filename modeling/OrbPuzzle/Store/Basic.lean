import Std.Data.TreeMap

/-!
# Key-value stores

A store keeps strings under string keys. `Store` is what every kind of store offers; a failed `set`
may still have changed what the store will answer, so it gives the store back in either case.

`MemoryStore` is the plain one: a map in order of its keys that never fails.
-/

namespace OrbPuzzle

/-- What the disk answers instead of doing as asked. -/
inductive DiskError where
  | notFound
  | isDirectory
  | notText
  | nameTooLong
  /-- The path holds the character that ends every path. -/
  | nulInPath
deriving DecidableEq, Repr

/-- The text of a disk error. -/
def DiskError.message : DiskError → String
  | .notFound => "No such file or directory (os error 2)"
  | .isDirectory => "Is a directory (os error 21)"
  | .notText => "stream did not contain valid UTF-8"
  | .nameTooLong => "File name too long (os error 36)"
  | .nulInPath => "file name contained an unexpected NUL byte"

/-- Why a store could not be opened, read or written. -/
inductive StoreError where
  /-- The file of the store could not be read or written. -/
  | disk (path : String) (cause : DiskError)
  /-- The file of the store is not a store document. -/
  | malformed
  /-- There is no storage to ask. -/
  | unavailable
  /-- The storage refused a key. -/
  | rejected (key reason : String)
deriving DecidableEq, Repr

/-- The text of a store error. What is wrong with a malformed document is not told. -/
def StoreError.message? : StoreError → Option String
  | .disk path cause => some ("Failed to access store file " ++ path ++ ": " ++ cause.message)
  | .malformed => none
  | .unavailable => some "Browser storage is unavailable"
  | .rejected key reason => some ("Browser storage rejected " ++ key ++ ": " ++ reason)

/-- Stores of strings under string keys. -/
class Store (σ : Type) where
  /-- The value kept under a key. -/
  get : σ → String → Except StoreError (Option String)
  /-- Keeps a value under a key. -/
  set : σ → String → String → σ × Except StoreError Unit

/-- Strings under string keys, in order of the keys. -/
abbrev Entries := Std.TreeMap String String

/-- A store that lasts as long as the program. -/
structure MemoryStore where
  entries : Entries := ∅

instance : Inhabited MemoryStore := ⟨{}⟩

namespace MemoryStore

/-- The value kept under a key. -/
def get? (s : MemoryStore) (key : String) : Option String := s.entries[key]?

/-- Keeps a value under a key. -/
def insert (s : MemoryStore) (key value : String) : MemoryStore :=
  ⟨s.entries.insert key value⟩

instance : Store MemoryStore where
  get s key := .ok (s.get? key)
  set s key value := (s.insert key value, .ok ())

end MemoryStore

/-- One of two kinds of store. -/
instance {σ τ : Type} [Store σ] [Store τ] : Store (σ ⊕ τ) where
  get
    | .inl s, key => Store.get s key
    | .inr s, key => Store.get s key
  set
    | .inl s, key, value =>
      let (s, result) := Store.set s key value
      (.inl s, result)
    | .inr s, key, value =>
      let (s, result) := Store.set s key value
      (.inr s, result)

end OrbPuzzle
