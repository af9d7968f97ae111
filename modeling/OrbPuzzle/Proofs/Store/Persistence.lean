import OrbPuzzle.Proofs.Store.Document
import OrbPuzzle.Store.File

/-!
# What a store keeps

A store in a file answers from memory and writes the file on every change. Between two changes the
outside may do anything to the file, and a write may be refused. Still the store answers with the
last value that was set, and a write that was let through saves everything the store holds, so that
the file can be opened again with the same answers.

* `FileStore.attempt`: setting a value, on whatever the path shows at that moment.
* `FileStore.reopened_agrees`: what any number of attempts leaves in memory and in the file.
* `Store.Reliable`: a store that never fails and gives back the last value set. A store in memory is
  one (`MemoryStore.reliable`), and so is one in a file that can always be written
  (`FileStore.reliable`).
-/

namespace OrbPuzzle

/-! ## Memory -/

namespace MemoryStore

theorem get?_insert (s : MemoryStore) (key value other : String) :
    (s.insert key value).get? other = if other = key then some value else s.get? other := by
  simp only [get?, insert, Std.TreeMap.getElem?_insert, Std.LawfulEqCmp.compare_eq_iff_eq,
    eq_comm (a := key)]

/-- Setting a value changes what is read under its key, and nothing else. -/
theorem get_set (s : MemoryStore) (key value other : String) :
    Store.get (Store.set s key value).1 other =
      if other = key then .ok (some value) else Store.get s other := by
  show Except.ok ((s.insert key value).get? other) = _
  rw [get?_insert]
  split <;> rfl

end MemoryStore

/-! ## Disk -/

namespace Disk

/-- A write is refused and changes nothing, or from now on the path shows a file with the text. -/
theorem write_cases (d : Disk) (text : String) :
    (∃ e, d.write text = (d, .error e)) ∨
      d.write text = ({ node := .file text.toUTF8 }, .ok ()) := by
  obtain ⟨node, refusal⟩ := d
  unfold write
  split
  · exact .inl ⟨_, rfl⟩
  · exact .inl ⟨_, rfl⟩
  · exact .inl ⟨_, rfl⟩
  · next hrefusal _ _ =>
    cases hrefusal
    exact .inr rfl

/-- The text of a file is read as it was written. -/
theorem read_file (text : String) : ({ node := .file text.toUTF8 } : Disk).read = .ok text := by
  have hvalid : String.fromUTF8? text.toUTF8 = some text := dif_pos text.isValidUTF8
  simp only [read, hvalid]

end Disk

/-! ## Files -/

namespace FileStore

/-- What the file at a path holds under a key: nothing, if there is no file to read. -/
def heldBy (disk : Disk) (key : String) : Option String :=
  match disk.read with
  | .error _ => none
  | .ok text => (Document.parse? text).bind (·[key]?)

/-- A store that was opened answers with what the file holds. -/
theorem open?_eq_ok {path : String} {disk : Disk} {s : FileStore} (h : open? path disk = .ok s) :
    s.path = path ∧ s.disk = disk ∧ ∀ key, s.contents.get? key = heldBy disk key := by
  unfold open? at h
  unfold heldBy
  cases hread : disk.read with
  | error e =>
    rw [hread] at h
    cases e with
    | notFound =>
      cases h
      exact ⟨rfl, rfl, fun _ => rfl⟩
    | isDirectory | notText | nameTooLong | nulInPath => cases h
  | ok text =>
    simp only [hread] at h
    cases hparse : Document.parse? text with
    | none =>
      rw [hparse] at h
      cases h
    | some entries =>
      rw [hparse] at h
      cases h
      refine ⟨rfl, rfl, fun key => ?_⟩
      show entries[key]? = (Document.parse? text).bind (·[key]?)
      rw [hparse, Option.bind_some]

/-- A store whose file can be opened again, and then answers as the store does. -/
def Saved (s : FileStore) : Prop :=
  ∃ reopened, open? s.path s.disk = .ok reopened ∧
    ∀ key, Store.get reopened key = Store.get s key

/-- The document of a store reads back as the store. -/
theorem saved_of_file {s : FileStore}
    (h : s.disk = { node := .file (Document.render s.contents.entries).toUTF8 }) : s.Saved := by
  refine ⟨{ s with contents := ⟨.ofList s.contents.entries.toList⟩ }, ?_, ?_⟩
  · have hread : s.disk.read = .ok (Document.render s.contents.entries) := by
      rw [h, Disk.read_file]
    simp only [open?, hread, Document.parse?_render]
  · intro key
    exact congrArg Except.ok (Document.getElem?_ofList_toList s.contents.entries key)

/-- The write of a set is refused and leaves the disk, or the path shows the document of the changed
store. -/
theorem insert_cases (s : FileStore) (key value : String) :
    (∃ e, (s.insert key value).2 = .error e ∧ (s.insert key value).1.disk = s.disk) ∨
      (s.insert key value).2 = .ok () ∧ (s.insert key value).1.disk =
        { node := .file (Document.render (s.insert key value).1.contents.entries).toUTF8 } := by
  obtain ⟨e, hwrite⟩ | hwrite :=
    s.disk.write_cases (Document.render (s.contents.insert key value).entries)
  · refine .inl ⟨.disk s.path e, ?_, ?_⟩
    · simp only [insert, hwrite]
      rfl
    · simp only [insert, hwrite]
  · refine .inr ⟨?_, ?_⟩
    · simp only [insert, hwrite]
      rfl
    · simp only [insert, hwrite]

/-- A file reads as memory does, also after a write that was refused. -/
theorem get_set (s : FileStore) (key value other : String) :
    Store.get (Store.set s key value).1 other =
      if other = key then .ok (some value) else Store.get s other :=
  s.contents.get_set key value other

/-! ## Attempts -/

/-- A value to be set under a key, and what the path shows at that moment. -/
structure Attempt where
  disk : Disk
  key : String
  value : String

/-- Sets a value. Whatever the outside has done to the path since the last time is done first. -/
def attempt (s : FileStore) (a : Attempt) : FileStore × Except StoreError Unit :=
  Store.set { s with disk := a.disk } a.key a.value

/-- Sets values one after the other. -/
def attemptAll (s : FileStore) (attempts : List Attempt) : FileStore :=
  attempts.foldl (fun s a => (s.attempt a).1) s

/-- The last value that was set under a key. -/
def lastValue (attempts : List Attempt) (key : String) : Option String :=
  (attempts.reverse.map fun a => (a.key, a.value)).lookup key

/-- The store answers with the last value set, whether or not it was written. -/
theorem get?_attemptAll (s : FileStore) (attempts : List Attempt) (key : String) :
    (s.attemptAll attempts).contents.get? key =
      (lastValue attempts key).or (s.contents.get? key) := by
  induction attempts generalizing s with
  | nil => rfl
  | cons a rest ih =>
    have hfirst : (s.attempt a).1.contents = s.contents.insert a.key a.value := rfl
    have hlast : lastValue (a :: rest) key =
        (lastValue rest key).or (if key = a.key then some a.value else none) := by
      rw [lastValue, List.reverse_cons, List.map_append, List.lookup_append, lastValue]
      congr 1
      by_cases hkey : key = a.key <;> simp [hkey]
    rw [hlast, Option.or_assoc]
    refine (ih (s.attempt a).1).trans ?_
    rw [hfirst, MemoryStore.get?_insert]
    by_cases hkey : key = a.key <;> simp [hkey]

theorem path_attemptAll (s : FileStore) (attempts : List Attempt) :
    (s.attemptAll attempts).path = s.path := by
  induction attempts generalizing s with
  | nil => rfl
  | cons a rest ih => exact ih (s.attempt a).1

/-- Once a store was opened, it answers with the last value set under a key, and with what the file
held if none was set. An attempt whose write succeeds leaves a file that opens again and gives all
the same answers; one whose write fails leaves the path as it was. -/
theorem reopened_agrees {path : String} {disk : Disk} {s : FileStore}
    (hopen : open? path disk = .ok s) (attempts : List Attempt) :
    (∀ key, Store.get (s.attemptAll attempts) key =
      .ok ((lastValue attempts key).or (heldBy disk key))) ∧
    ∀ a after result, (s.attemptAll attempts).attempt a = (after, result) →
      (result = .ok () → ∃ reopened, open? path after.disk = .ok reopened ∧
        ∀ key, Store.get reopened key = Store.get after key) ∧
      (result ≠ .ok () → after.disk = a.disk) := by
  obtain ⟨hpath, -, hheld⟩ := open?_eq_ok hopen
  refine ⟨?_, ?_⟩
  · intro key
    rw [← hheld key, ← get?_attemptAll]
    rfl
  · intro a after result hattempt
    obtain ⟨rfl, rfl⟩ := Prod.mk.inj hattempt
    have hsame : ((s.attemptAll attempts).attempt a).1.path = path :=
      (path_attemptAll s attempts).trans hpath
    obtain ⟨e, herror, hdisk⟩ | ⟨hok, hdisk⟩ :=
      insert_cases { s.attemptAll attempts with disk := a.disk } a.key a.value
    · refine ⟨fun hok => ?_, fun _ => hdisk⟩
      cases hok.symm.trans herror
    · refine ⟨fun _ => ?_, fun herror => absurd hok herror⟩
      rw [← hsame]
      exact saved_of_file hdisk

/-- A value whose write was refused is saved by the next write, under a key that needs escapes. -/
theorem reopened_agrees_afterRefusal :
    ∃ s after reopened, open? "store.json" {} = .ok s ∧
      (s.attemptAll [⟨{ refusal := some .isDirectory }, "\"\n\\", "é\x01"⟩]).attempt
        ⟨{}, "HighScore", "7"⟩ = (after, .ok ()) ∧
      open? "store.json" after.disk = .ok reopened ∧
      Store.get reopened "\"\n\\" = .ok (some "é\x01") := by
  have hopen : open? "store.json" {} = .ok ⟨"store.json", {}, {}⟩ := rfl
  let refused : Attempt := ⟨{ refusal := some .isDirectory }, "\"\n\\", "é\x01"⟩
  let written : Attempt := ⟨{}, "HighScore", "7"⟩
  obtain ⟨reopened, hreopened, hagrees⟩ :=
    ((reopened_agrees hopen [refused]).2 written _ _ rfl).1 rfl
  refine ⟨_, _, reopened, hopen, rfl, hreopened, ?_⟩
  rw [hagrees]
  exact ((reopened_agrees hopen [refused, written]).1 _).trans (congrArg Except.ok (by decide))

end FileStore

/-! ## Reliable stores -/

namespace Store

variable {σ : Type} [Store σ]

/-- Sets values one after the other, each under its key. -/
def setAll (s : σ) (writes : List (String × String)) : σ :=
  writes.foldl (fun s write => (set s write.1 write.2).1) s

/-- The store never fails, whatever has been set before, and gives back the last value set. -/
structure Reliable (s : σ) : Prop where
  get_ok : ∀ writes key, ∃ value, get (setAll s writes) key = .ok value
  set_ok : ∀ writes key value, (set (setAll s writes) key value).2 = .ok ()
  get_set : ∀ writes key value other, get (set (setAll s writes) key value).1 other =
    if other = key then .ok (some value) else get (setAll s writes) other

/-- A reliable store stays so. -/
theorem Reliable.set {s : σ} (h : Reliable s) (key value : String) :
    Reliable (Store.set s key value).1 where
  get_ok := fun writes => h.get_ok ((key, value) :: writes)
  set_ok := fun writes => h.set_ok ((key, value) :: writes)
  get_set := fun writes => h.get_set ((key, value) :: writes)

end Store

theorem MemoryStore.reliable (s : MemoryStore) : Store.Reliable s where
  get_ok := fun _ _ => ⟨_, rfl⟩
  set_ok := fun _ _ _ => rfl
  get_set := fun writes => (Store.setAll s writes).get_set

namespace FileStore

/-- Every write to the file succeeds. -/
def Writable (s : FileStore) : Prop := ∀ text, (s.disk.write text).2 = .ok ()

/-- A set on a file that can be written succeeds, and the file can still be written. -/
theorem Writable.set {s : FileStore} (h : s.Writable) (key value : String) :
    (Store.set s key value).2 = .ok () ∧ FileStore.Writable (Store.set s key value).1 := by
  have hok : (s.insert key value).2 = .ok () := by
    show (s.disk.write _).2.mapError _ = _
    rw [h]
    rfl
  obtain ⟨e, herror, -⟩ | ⟨-, hdisk⟩ := s.insert_cases key value
  · cases hok.symm.trans herror
  · refine ⟨hok, ?_⟩
    intro text
    show ((s.insert key value).1.disk.write text).2 = _
    rw [hdisk]
    rfl

theorem Writable.setAll {s : FileStore} (h : s.Writable) (writes : List (String × String)) :
    FileStore.Writable (Store.setAll s writes) := by
  induction writes generalizing s with
  | nil => exact h
  | cons write rest ih => exact ih (h.set write.1 write.2).2

/-- A store in a file that can be written is reliable. -/
theorem reliable {s : FileStore} (h : s.Writable) : Store.Reliable s where
  get_ok := fun _ _ => ⟨_, rfl⟩
  set_ok := fun writes key value => ((h.setAll writes).set key value).1
  get_set := fun writes => (Store.setAll s writes).get_set

end FileStore

end OrbPuzzle
