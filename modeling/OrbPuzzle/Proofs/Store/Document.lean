import OrbPuzzle.Store.Document

/-!
# A written document is read back

The reader takes many documents that the writer never makes. On what the writer does make it is the
writer's inverse: `Document.parse?_render` reads the very entries back, for every map of strings.

The proof follows the layers of the format. Each lemma is about a piece of text with anything after
it, so that the next layer can put more behind:

* `Quoted.decode_encode`: one string, with its escapes.
* `Document.entries?_render`: a list of entries, by induction; the length of the text is fuel
  enough.
* `Document.entriesObject?_render`, `Document.fields?_render`: the braces and the field around it.

Blanks stand in front of every piece, so the readers drop them first (`dropBlanks_append`).
-/

namespace OrbPuzzle.Quoted

/-! ## Strings -/

/-- Two hexadecimal digits after two zeros give a control character's code back. -/
theorem code?_hexDigit : ∀ n < 0x20,
    code? '0' '0' (hexDigit (n / 16)) (hexDigit (n % 16)) = some n := by
  decide

theorem assemble_char (c : Char) (pieces : List Piece) :
    assemble (.char c :: pieces) = (assemble pieces).map (c :: ·) := rfl

/-- A code that is no half of a pair stands for one character, whatever follows. -/
theorem assemble_code {unit : Nat} (h : unit < 0xd800) (pieces : List Piece) :
    assemble (.code unit :: pieces) = (assemble pieces).map (Char.ofNat unit :: ·) := by
  have hleading : ¬ IsLeading unit := fun hle => absurd hle.1 (by omega)
  have htrailing : ¬ IsTrailing unit := fun hle => absurd hle.1 (by omega)
  cases pieces with
  | nil => simp [assemble, hleading, htrailing]
  | cons piece rest =>
    cases piece with
    | char c => simp [assemble, hleading, htrailing]
    | code next => simp [assemble, hleading, htrailing]

/-- A character that needs no escape is read as it stands. -/
theorem scan_plain {c : Char} (hquote : c ≠ '"') (hslash : c ≠ '\\') (hplain : ¬ c.toNat < 0x20)
    (rest : List Char) :
    scan (c :: rest) = (scan rest).map fun found => (.char c :: found.1, found.2) := by
  rw [scan, if_neg hplain]
  · cases scan rest <;> rfl
  · exact hquote
  · exact fun _ _ _ _ _ h _ => hslash h
  · exact fun _ _ h _ => hslash h

/-- A control character is read as its code. -/
theorem scan_control {c : Char} (hcontrol : c.toNat < 0x20) (rest : List Char) :
    scan ('\\' :: 'u' :: '0' :: '0' :: hexDigit (c.toNat / 16) :: hexDigit (c.toNat % 16) :: rest) =
      (scan rest).map fun found => (.code c.toNat :: found.1, found.2) := by
  rw [scan, code?_hexDigit c.toNat hcontrol]
  cases scan rest <;> rfl

/-- Of a written character one piece is read, and the piece stands for the character. -/
theorem scan_escape (c : Char) (rest : List Char) :
    ∃ piece, scan (escape c ++ rest) = (scan rest).map (fun found => (piece :: found.1, found.2)) ∧
      ∀ pieces, assemble (piece :: pieces) = (assemble pieces).map (c :: ·) := by
  fun_cases escape c
  case case8 hquote hslash _ _ _ _ _ hcontrol =>
    refine ⟨.code c.toNat, scan_control hcontrol rest, ?_⟩
    intro pieces
    rw [assemble_code (by omega), Char.ofNat_toNat]
  case case9 hquote hslash _ _ _ _ _ hplain =>
    exact ⟨.char c, scan_plain hquote hslash hplain rest, assemble_char c⟩
  all_goals
    refine ⟨.char _, ?_, assemble_char _⟩
    cases h : scan rest <;> simp [scan, letter?, h]

/-- A string that is written between quotes is read back, and what follows it is left. -/
theorem decode_encode (s : String) (rest : List Char) :
    decode (s.toList.flatMap escape ++ '"' :: rest) = some (s, rest) := by
  have hwritten (cs : List Char) : ∃ pieces,
      scan (cs.flatMap escape ++ '"' :: rest) = some (pieces, rest) ∧ assemble pieces = some cs := by
    induction cs with
    | nil => exact ⟨[], rfl, rfl⟩
    | cons c cs ih =>
      obtain ⟨pieces, hscan, hassemble⟩ := ih
      obtain ⟨piece, hpiece, hchar⟩ := scan_escape c (cs.flatMap escape ++ '"' :: rest)
      refine ⟨piece :: pieces, ?_, ?_⟩
      · rw [List.flatMap_cons, List.append_assoc, hpiece, hscan]
        rfl
      · rw [hchar, hassemble]
        rfl
  obtain ⟨pieces, hscan, hassemble⟩ := hwritten s.toList
  rw [decode, hscan]
  show (do let chars ← assemble pieces; return (String.ofList chars, rest)) = _
  rw [hassemble]
  simp

end OrbPuzzle.Quoted

namespace OrbPuzzle

/-! ## Blanks -/

/-- Blanks in front of a character that is none are dropped. -/
theorem dropBlanks_append (blanks : List Char) (hblanks : blanks.all [' ', '\n'].contains = true)
    {c : Char} (hc : c ∉ [' ', '\n', '\t', '\r']) (rest : List Char) :
    dropBlanks (blanks ++ c :: rest) = c :: rest := by
  unfold dropBlanks
  rw [List.dropWhile_append_of_pos]
  · rw [List.dropWhile_cons_of_neg]
    simp only [List.mem_cons, List.not_mem_nil, or_false, not_or] at hc
    simp [hc]
  · intro d hd
    have hd := List.contains_iff_mem.mp (List.all_eq_true.mp hblanks d hd)
    simp only [List.mem_cons, List.not_mem_nil, or_false] at hd
    rcases hd with rfl | rfl <;> decide

namespace Document

/-! ## Entries -/

theorem string?_encode (blanks : List Char) (hblanks : blanks.all [' ', '\n'].contains = true)
    (s : String) (rest : List Char) :
    string? (blanks ++ Quoted.encode s ++ rest) = some (s, rest) := by
  have htext : blanks ++ Quoted.encode s ++ rest =
      blanks ++ '"' :: (s.toList.flatMap Quoted.escape ++ '"' :: rest) := by
    simp [Quoted.encode]
  rw [string?, htext, dropBlanks_append blanks hblanks (by decide)]
  exact Quoted.decode_encode s rest

/-- A name is read up to the colon after it. -/
theorem name?_encode (blanks : List Char) (hblanks : blanks.all [' ', '\n'].contains = true)
    (name : String) (rest : List Char) :
    name? (blanks ++ Quoted.encode name ++ ':' :: rest) = some (name, rest) := by
  rw [name?, string?_encode blanks hblanks]
  rfl

/-- An entry begins with its key, on a line of its own. -/
theorem renderEntry_append (entry : String × String) (rest : List Char) :
    renderEntry entry ++ rest = "\n    ".toList ++ Quoted.encode entry.1 ++
      ':' :: (' ' :: Quoted.encode entry.2 ++ rest) :=
  calc renderEntry entry ++ rest
    _ = "\n    ".toList ++ Quoted.encode entry.1 ++ [':', ' '] ++ Quoted.encode entry.2 ++ rest := rfl
    _ = _ := by simp only [List.append_assoc, List.cons_append, List.nil_append]

section Entry

variable (entry : String × String) {rest tail : List Char} (fuel : Nat)

theorem name?_renderEntry :
    name? (renderEntry entry ++ rest) = some (entry.1, ' ' :: Quoted.encode entry.2 ++ rest) := by
  rw [renderEntry_append, name?_encode _ (by decide)]

theorem string?_value : string? (' ' :: Quoted.encode entry.2 ++ rest) = some (entry.2, rest) :=
  string?_encode [' '] (by decide) entry.2 rest

/-- After an entry and a comma more entries are read. -/
theorem entries?_of_comma (h : dropBlanks rest = ',' :: tail) :
    entries? (fuel + 1) (renderEntry entry ++ rest) =
      (entries? fuel tail).map fun found => (entry :: found.1, found.2) := by
  rw [entries?, name?_renderEntry]
  simp only [Option.bind_eq_bind, Option.bind_some, string?_value, h]
  cases entries? fuel tail <;> rfl

/-- After an entry and a closing brace the entries are at their end. -/
theorem entries?_of_brace (h : dropBlanks rest = '\x7d' :: tail) :
    entries? (fuel + 1) (renderEntry entry ++ rest) = some ([entry], tail) := by
  rw [entries?, name?_renderEntry]
  simp only [Option.bind_eq_bind, Option.bind_some, string?_value, h]
  rfl

end Entry

/-- Entries that are written one after the other are all read back. -/
theorem entries?_render (entry : String × String) (others : List (String × String))
    (rest : List Char) (fuel : Nat) (hfuel : others.length < fuel) :
    entries? fuel (renderEntry entry ++ (others.flatMap (fun entry => ',' :: renderEntry entry) ++
      ("\n  \x7d".toList ++ rest))) = some (entry :: others, rest) := by
  induction others generalizing entry fuel with
  | nil =>
    obtain ⟨fuel, rfl⟩ := Nat.exists_eq_add_one.mpr hfuel
    exact entries?_of_brace entry fuel (dropBlanks_append ['\n', ' ', ' '] (by decide)
      (by decide) rest)
  | cons next others ih =>
    obtain ⟨fuel, rfl⟩ := Nat.exists_eq_add_one.mpr (Nat.lt_of_le_of_lt (Nat.zero_le _) hfuel)
    have hothers : others.length < fuel := by
      rw [List.length_cons] at hfuel
      omega
    rw [List.flatMap_cons, List.append_assoc, List.cons_append,
      entries?_of_comma entry fuel (show dropBlanks (',' :: _) = _ from rfl), ih next fuel hothers]
    rfl

/-- Every entry takes at least one character, so the length of a text is fuel enough for it. -/
theorem length_le_flatMap_renderEntry (others : List (String × String)) :
    others.length ≤ (others.flatMap fun entry => ',' :: renderEntry entry).length := by
  induction others with
  | nil => exact Nat.le_refl _
  | cons entry others ih =>
    rw [List.flatMap_cons, List.length_append, List.length_cons, List.length_cons]
    omega

/-! ## Documents -/

/-- The object of the entries is read back. -/
theorem entriesObject?_render (blanks : List Char)
    (hblanks : blanks.all [' ', '\n'].contains = true)
    (entries : List (String × String)) (rest : List Char) :
    entriesObject? (blanks ++ (renderEntries entries ++ rest)) = some (entries, rest) := by
  cases entries with
  | nil =>
    rw [entriesObject?, renderEntries, List.cons_append,
      dropBlanks_append blanks hblanks (by decide) (['\x7d'] ++ rest)]
    rfl
  | cons entry others =>
    have htext : renderEntries (entry :: others) ++ rest = '\x7b' :: (renderEntry entry ++
        (others.flatMap (fun entry => ',' :: renderEntry entry) ++ ("\n  \x7d".toList ++ rest))) := by
      simp only [renderEntries, List.cons_append, List.append_assoc]
    have hread := entries?_render entry others rest
    generalize hbody : renderEntry entry ++ (others.flatMap (fun entry => ',' :: renderEntry entry) ++
      ("\n  \x7d".toList ++ rest)) = body at htext hread
    have hfuel : others.length < body.length := by
      have hle := length_le_flatMap_renderEntry others
      have hclose : "\n  \x7d".toList.length = 4 := by decide
      rw [← hbody, List.length_append, List.length_append, List.length_append, hclose]
      omega
    obtain ⟨tail, hquote⟩ : ∃ tail, dropBlanks body = '"' :: tail := by
      rw [← hbody, renderEntry_append, Quoted.encode]
      simp only [List.append_assoc, List.cons_append]
      exact ⟨_, dropBlanks_append "\n    ".toList (by decide) (by decide) _⟩
    rw [entriesObject?, htext, dropBlanks_append blanks hblanks (by decide) body]
    simp only [hquote]
    exact hread body.length hfuel

/-- The field of the entries is read back, and with it the document ends. -/
theorem fields?_render (entries : List (String × String)) (fuel : Nat) :
    fields? (fuel + 1) none ("\n  ".toList ++ Quoted.encode "entries" ++
      ':' :: ([' '] ++ (renderEntries entries ++ "\n\x7d".toList))) = some (some entries, []) := by
  rw [fields?, name?_encode _ (by decide)]
  simp only [Option.bind_eq_bind, Option.bind_some]
  rw [if_pos trivial, entriesObject?_render _ (by decide)]
  rfl

/-- A written document is read back as the entries it was made of. -/
theorem parse?_render (entries : Entries) :
    parse? (render entries) = some (.ofList entries.toList) := by
  have hopen : "\x7b\n  \"entries\": ".toList =
      '\x7b' :: ("\n  ".toList ++ Quoted.encode "entries" ++ [':', ' ']) := by decide
  have htext : (render entries).toList = '\x7b' :: ("\n  ".toList ++ Quoted.encode "entries" ++
      ':' :: ([' '] ++ (renderEntries entries.toList ++ "\n\x7d".toList))) := by
    have happend (first last : List Char) :
        '\x7b' :: (first ++ [':', ' ']) ++ renderEntries entries.toList ++ last =
          '\x7b' :: (first ++ ':' :: ([' '] ++ (renderEntries entries.toList ++ last))) := by simp
    exact String.toList_ofList.trans
      ((congrArg (· ++ renderEntries entries.toList ++ _) hopen).trans (happend _ _))
  have hfields := fields?_render entries.toList
  generalize hbody : "\n  ".toList ++ Quoted.encode "entries" ++
    ':' :: ([' '] ++ (renderEntries entries.toList ++ "\n\x7d".toList)) = body at htext hfields
  obtain ⟨tail, hquote⟩ : ∃ tail, dropBlanks body = '"' :: tail := by
    rw [← hbody, Quoted.encode]
    simp only [List.append_assoc, List.cons_append]
    exact ⟨_, dropBlanks_append "\n  ".toList (by decide) (by decide) _⟩
  obtain ⟨fuel, hfuel⟩ : ∃ fuel, body.length = fuel + 1 := by
    cases body with
    | nil => cases hquote
    | cons c rest => exact ⟨rest.length, rfl⟩
  have hbrace : dropBlanks ('\x7b' :: body) = '\x7b' :: body := rfl
  have hbody : body? (render entries).toList = some (entries.toList, []) := by
    rw [body?, htext, hbrace]
    simp only [hquote, hfuel, hfields]
    rfl
  rw [parse?, hbody]
  rfl

/-- Writing and reading keeps what is found under every key. -/
theorem getElem?_ofList_toList (entries : Entries) (key : String) :
    (Std.TreeMap.ofList entries.toList : Entries)[key]? = entries[key]? := by
  cases h : entries[key]? with
  | none =>
    apply Std.TreeMap.getElem?_ofList_of_contains_eq_false
    have habsent : key ∉ entries := by
      rw [Std.TreeMap.mem_iff_isSome_getElem?, h]
      exact Bool.false_ne_true
    rw [Std.TreeMap.map_fst_toList_eq_keys, List.contains_eq_mem, decide_eq_false_iff_not,
      Std.TreeMap.mem_keys]
    exact habsent
  | some value =>
    exact Std.TreeMap.getElem?_ofList_of_mem Std.ReflCmp.compare_self
      Std.TreeMap.distinct_keys_toList (Std.TreeMap.mem_toList_iff_getElem?_eq_some.mpr h)

end Document
end OrbPuzzle
