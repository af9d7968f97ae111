import Mathlib.Data.List.Basic
import Mathlib.Data.List.Induction
import Mathlib.Data.List.TakeWhile
import Mathlib.Data.Nat.Digits.Defs
import OrbPuzzle.Host
import OrbPuzzle.Proofs.Store.Persistence

/-!
# The high score that a host remembers

A high score is kept as text. The host reads whatever the store has under its key: a text that
someone else wrote, none at all, or an error. `Score.StandsFor` says which texts stand for a score,
without reading them from left to right, and `Score.parse?_eq_some_iff` that these are the texts
that are read. Every other text, and no text, counts as zero.

`Host.highScore_as_text` puts this together with the way back. What is set is what is read next, in
memory and in a file, also in a file that cannot be written.
-/

namespace OrbPuzzle

namespace Score

/-! ## White space -/

theorem not_isBlank_of_isDigit {c : Char} (h : c.isDigit = true) : isBlank c = false := by
  have hrange : 48 ≤ c.toNat ∧ c.toNat ≤ 57 := by simpa [Char.isDigit_iff_toNat] using h
  simp only [isBlank, Bool.or_eq_false_iff, Bool.and_eq_false_iff, decide_eq_false_iff_not,
    beq_eq_false_iff_ne]
  omega

/-- A text is what is left without white space at its ends, with white space at its ends. -/
theorem exists_trim (cs : List Char) :
    ∃ lead trail, cs = lead ++ trim cs ++ trail ∧
      (∀ c ∈ lead, isBlank c = true) ∧ ∀ c ∈ trail, isBlank c = true := by
  let rest := cs.dropWhile isBlank
  -- what `trim` drops at each end is what `takeWhile` takes there
  refine ⟨cs.takeWhile isBlank, (rest.reverse.takeWhile isBlank).reverse, ?_, ?_, ?_⟩
  · calc cs
      _ = cs.takeWhile isBlank ++ rest.reverse.reverse := by
        rw [List.reverse_reverse, List.takeWhile_append_dropWhile]
      _ = cs.takeWhile isBlank ++ (rest.reverse.takeWhile isBlank ++
            rest.reverse.dropWhile isBlank).reverse := by
        rw [List.takeWhile_append_dropWhile]
      _ = cs.takeWhile isBlank ++ trim cs ++ (rest.reverse.takeWhile isBlank).reverse := by
        rw [List.reverse_append, List.append_assoc]
        rfl
  · exact fun c hc => List.mem_takeWhile_imp hc
  · exact fun c hc => List.mem_takeWhile_imp (List.mem_reverse.mp hc)

theorem dropWhile_isBlank_append {blanks body : List Char}
    (hblanks : ∀ c ∈ blanks, isBlank c = true) (hbody : ∀ c ∈ body.head?, isBlank c = false) :
    (blanks ++ body).dropWhile isBlank = body := by
  rw [List.dropWhile_append_of_pos hblanks]
  cases body with
  | nil => rfl
  | cons c rest => exact List.dropWhile_cons_of_neg (by simp [hbody c rfl])

/-- White space is taken off up to a text that has none. -/
theorem trim_append {lead body trail : List Char} (hlead : ∀ c ∈ lead, isBlank c = true)
    (htrail : ∀ c ∈ trail, isBlank c = true) (hbody : ∀ c ∈ body, isBlank c = false)
    (hne : body ≠ []) : trim (lead ++ body ++ trail) = body := by
  have hfront : (lead ++ (body ++ trail)).dropWhile isBlank = body ++ trail := by
    refine dropWhile_isBlank_append hlead ?_
    intro c hc
    rw [List.head?_append_of_ne_nil _ hne] at hc
    exact hbody c (List.mem_of_mem_head? hc)
  have hback : (trail.reverse ++ body.reverse).dropWhile isBlank = body.reverse := by
    refine dropWhile_isBlank_append (fun c hc => htrail c (List.mem_reverse.mp hc)) ?_
    exact fun c hc => hbody c (List.mem_reverse.mp (List.mem_of_mem_head? hc))
  rw [trim, List.append_assoc, hfront, List.reverse_append, hback, List.reverse_reverse]

/-! ## The texts that stand for a score -/

/-- The number that decimal digits stand for, each by its place: the last one counts ones. -/
def decimalValue (digits : List Char) : Nat :=
  Nat.ofDigits 10 (digits.reverse.map fun c => c.toNat - '0'.toNat)

theorem digitsValue_eq (digits : List Char) : digitsValue digits = decimalValue digits := by
  -- reading goes from the left, places count from the right: one digit more at the end
  induction digits using List.reverseRecOn with
  | nil => rfl
  | append_singleton digits c ih =>
    have hplace : decimalValue (digits ++ [c]) =
        (c.toNat - '0'.toNat) + 10 * decimalValue digits := by
      simp only [decimalValue, List.reverse_append, List.reverse_singleton, List.singleton_append,
        List.map_cons, Nat.ofDigits_cons]
    have hread : digitsValue (digits ++ [c]) =
        10 * digitsValue digits + (c.toNat - '0'.toNat) := by
      simp only [digitsValue, List.foldl_append, List.foldl_cons, List.foldl_nil]
    rw [hread, hplace, ih, Nat.add_comm]

/-- What stands between the white space: a plus sign or none, and one decimal digit or more, whose
number is a possible score. -/
structure Numeral (sign digits : List Char) (score : Nat) : Prop where
  sign_eq : sign = [] ∨ sign = ['+']
  digits_ne_nil : digits ≠ []
  isDigit : ∀ c ∈ digits, c.isDigit = true
  value_eq : decimalValue digits = score
  score_le : score ≤ limit

/-- The text is a numeral for the score, with any white space around it. -/
def StandsFor (text : String) (score : Nat) : Prop :=
  ∃ lead sign digits trail, text.toList = lead ++ (sign ++ digits) ++ trail ∧
    (∀ c ∈ lead, isBlank c = true) ∧ (∀ c ∈ trail, isBlank c = true) ∧ Numeral sign digits score

/-- There is no white space within a numeral. -/
theorem Numeral.not_isBlank {sign digits : List Char} {score : Nat}
    (h : Numeral sign digits score) : ∀ c ∈ sign ++ digits, isBlank c = false := by
  intro c hc
  obtain hsign | hdigit := List.mem_append.mp hc
  · obtain rfl | rfl := h.sign_eq
    · cases hsign
    · cases List.mem_singleton.mp hsign
      decide
  · exact not_isBlank_of_isDigit (h.isDigit c hdigit)

/-- Behind its sign, a numeral is what the reader asks digits to be. -/
theorem numeral_iff {sign digits : List Char} {score : Nat} (hsign : sign = [] ∨ sign = ['+']) :
    (if !digits.isEmpty && digits.all Char.isDigit && digitsValue digits ≤ limit then
      some (digitsValue digits) else none) = some score ↔ Numeral sign digits score := by
  simp only [Option.ite_none_right_eq_some, Option.some.injEq, Bool.and_eq_true,
    Bool.not_eq_eq_eq_not, Bool.not_true, List.isEmpty_eq_false_iff, List.all_eq_true,
    decide_eq_true_eq, digitsValue_eq]
  constructor
  · rintro ⟨⟨⟨hne, hdigits⟩, hle⟩, rfl⟩
    exact ⟨hsign, hne, hdigits, rfl, hle⟩
  · rintro ⟨-, hne, hdigits, rfl, hle⟩
    exact ⟨⟨⟨hne, hdigits⟩, hle⟩, rfl⟩

theorem parse?_eq_some_iff_trim {text : String} {score : Nat} :
    parse? text = some score ↔
      ∃ sign digits, trim text.toList = sign ++ digits ∧ Numeral sign digits score := by
  constructor
  · intro h
    simp only [parse?] at h
    split at h
    · next rest htrim => exact ⟨['+'], rest, htrim, (numeral_iff (.inr rfl)).mp h⟩
    · exact ⟨[], _, rfl, (numeral_iff (.inl rfl)).mp h⟩
  · rintro ⟨sign, digits, htrim, hnumeral⟩
    have hdigits := (numeral_iff hnumeral.sign_eq).mpr hnumeral
    obtain rfl | rfl := hnumeral.sign_eq
    · rw [List.nil_append] at htrim
      simp only [parse?, htrim]
      split
      · -- a digit is no plus sign, so nothing is taken off in front
        exact absurd (hnumeral.isDigit '+' List.mem_cons_self) (by decide)
      · exact hdigits
    · rw [List.singleton_append] at htrim
      simpa only [parse?, htrim] using hdigits

/-- The texts that are read as a score are those that stand for it. -/
theorem parse?_eq_some_iff {text : String} {score : Nat} :
    parse? text = some score ↔ StandsFor text score := by
  constructor
  · intro h
    obtain ⟨sign, digits, htrim, hnumeral⟩ := parse?_eq_some_iff_trim.mp h
    obtain ⟨lead, trail, htext, hlead, htrail⟩ := exists_trim text.toList
    exact ⟨lead, sign, digits, trail, htrim ▸ htext, hlead, htrail, hnumeral⟩
  · rintro ⟨lead, sign, digits, trail, htext, hlead, htrail, hnumeral⟩
    have hne : sign ++ digits ≠ [] := List.append_ne_nil_of_right_ne_nil sign hnumeral.digits_ne_nil
    refine parse?_eq_some_iff_trim.mpr ⟨sign, digits, ?_, hnumeral⟩
    rw [htext, trim_append hlead htrail hnumeral.not_isBlank hne]

instance (text : String) (score : Nat) : Decidable (StandsFor text score) :=
  decidable_of_iff _ parse?_eq_some_iff

/-- A score's decimal text stands for it. -/
theorem standsFor_toString {score : Nat} (h : score ≤ limit) :
    StandsFor (toString score) score := by
  refine ⟨[], [], Nat.toDigits 10 score, [], ?_, by simp, by simp, .inl rfl, ?_, ?_, ?_, h⟩
  · simp
  · exact Nat.toDigits_ne_nil
  · exact fun c hc => Nat.isDigit_of_mem_toDigits (by decide) (by decide) hc
  · rw [← digitsValue_eq]
    exact Nat.ofDigitChars_ten_toDigits

end Score

namespace Host

variable {σ : Type} [Store σ]

/-! ## Reading -/

theorem highScore_of_standsFor {h : Host σ} {text : String} {score : Nat}
    (hget : Store.get h.store Score.key = .ok (some text)) (htext : Score.StandsFor text score) :
    h.highScore = score := by
  rw [highScore, hget]
  show (Score.parse? text).getD 0 = score
  rw [Score.parse?_eq_some_iff.mpr htext, Option.getD_some]

theorem highScore_eq_zero {h : Host σ}
    (hnone : ∀ text score, Store.get h.store Score.key = .ok (some text) →
      ¬ Score.StandsFor text score) : h.highScore = 0 := by
  unfold highScore
  split
  · next text hget =>
    have hparse : Score.parse? text = none :=
      Option.eq_none_iff_forall_not_mem.mpr fun score hscore =>
        hnone text score hget (Score.parse?_eq_some_iff.mp hscore)
    rw [hparse, Option.getD_none]
  · rfl

/-! ## Setting -/

/-- Setting the score gives it back, it is read from then on, and what is under any other key stays
as it was. -/
structure Keeps (h : Host σ) (score : Nat) : Prop where
  echoed : (h.setHighScore score).1 = score
  remembered : (h.setHighScore score).2.highScore = score
  others : ∀ key ≠ Score.key,
    Store.get (h.setHighScore score).2.store key = Store.get h.store key

/-- A host keeps a score if a set changes what the store reads under the key, and nothing else. -/
theorem keeps_of_get_set (h : Host σ) {score : Nat} (hscore : score ≤ Score.limit)
    (get_set : ∀ value key, Store.get (Store.set h.store Score.key value).1 key =
      if key = Score.key then .ok (some value) else Store.get h.store key) : h.Keeps score where
  echoed := rfl
  remembered := by
    refine highScore_of_standsFor ?_ (Score.standsFor_toString hscore)
    exact (get_set (toString score) Score.key).trans (if_pos rfl)
  others := fun key hkey => (get_set (toString score) key).trans (if_neg hkey)

/-- A reliable store gives a high score back. -/
theorem highScore_setHighScore (h : Host σ) (reliable : Store.Reliable h.store) {score : Nat}
    (hscore : score ≤ Score.limit) : (h.setHighScore score).2.highScore = score :=
  (h.keeps_of_get_set hscore (reliable.get_set [] Score.key)).remembered

/-- The high score is the number that the stored text stands for, and zero if the text stands for
none, there is no text or the store cannot be read. A store in memory or in a file, whether or not
the file can be written, keeps every score that is set. On any other store the score that is set is
given back all the same, and the high score stays if the set changed nothing. -/
theorem highScore_as_text (host : Host σ) :
    (∀ text score, Store.get host.store Score.key = .ok (some text) →
      Score.StandsFor text score → host.highScore = score) ∧
    ((∀ text score, Store.get host.store Score.key = .ok (some text) →
      ¬ Score.StandsFor text score) → host.highScore = 0) ∧
    (∀ score ≤ Score.limit, (∀ memory : Host MemoryStore, memory.Keeps score) ∧
      ∀ file : Host FileStore, file.Keeps score) ∧
    ∀ score, (host.setHighScore score).1 = score ∧
      ((∀ key, Store.get (host.setHighScore score).2.store key = Store.get host.store key) →
        (host.setHighScore score).2.highScore = host.highScore) := by
  refine ⟨fun _ _ => highScore_of_standsFor, highScore_eq_zero, ?_, ?_⟩
  · intro score hscore
    refine ⟨fun memory => ?_, fun file => ?_⟩
    · exact memory.keeps_of_get_set hscore (memory.store.get_set Score.key)
    · exact file.keeps_of_get_set hscore (file.store.get_set Score.key)
  · intro score
    refine ⟨rfl, fun hsame => ?_⟩
    rw [highScore, highScore, hsame]

/-- A store that can be read and never written. -/
structure SealedStore where
  contents : MemoryStore

instance : Store SealedStore where
  get s key := Store.get s.contents key
  set s _ _ := (s, .error .unavailable)

/-- A host with a text under the key of the high score, in a store that is never written. -/
def sealedHost (text : String) : Host SealedStore where
  store := ⟨⟨({} : Entries).insert Score.key text⟩⟩

/-- A host with a value under some other key, in a file that cannot be written. -/
def refusedHost : Host FileStore where
  store := ⟨"store.json", ⟨({} : Entries).insert "Volume" "3"⟩, { refusal := some .isDirectory }⟩

/-- A wide space, a plus sign and zeros do not change the seven, and nine is not stored over it. The
first number above 32 bits counts as zero, and so does a sign without digits; the one before it is
kept, though its file is not written. -/
theorem highScore_as_text_sealedHost :
    Score.StandsFor "\u2003+0007\n" 7 ∧ (sealedHost "\u2003+0007\n").highScore = 7 ∧
      ((sealedHost "\u2003+0007\n").setHighScore 9).1 = 9 ∧
      ((sealedHost "\u2003+0007\n").setHighScore 9).2.highScore = 7 ∧
      (sealedHost "4294967296").highScore = 0 ∧ (sealedHost " + ").highScore = 0 ∧
      refusedHost.Keeps 4294967295 := by
  have hget : ∀ text, Store.get (sealedHost text).store Score.key = .ok (some text) := by
    intro text
    exact (MemoryStore.get_set {} Score.key text Score.key).trans (if_pos rfl)
  have hzero : ∀ text, Score.parse? text = none → (sealedHost text).highScore = 0 := by
    intro text hparse
    refine (highScore_as_text (sealedHost text)).2.1 fun other score hother hscore => ?_
    cases (hget text).symm.trans hother
    cases hparse.symm.trans (Score.parse?_eq_some_iff.mpr hscore)
  have hstands : Score.StandsFor "\u2003+0007\n" 7 := by decide +kernel
  obtain ⟨hread, -, hkeeps, hset⟩ := highScore_as_text (sealedHost "\u2003+0007\n")
  have hseven := hread _ 7 (hget _) hstands
  obtain ⟨hnine, hsame⟩ := hset 9
  exact ⟨hstands, hseven, hnine, (hsame fun _ => rfl).trans hseven, hzero _ (by decide +kernel),
    hzero _ (by decide +kernel), (hkeeps 4294967295 (by decide)).2 _⟩

end Host

end OrbPuzzle
