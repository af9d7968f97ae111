import Mathlib.Data.List.Basic
import OrbPuzzle.Proofs.Timeline.Pending

/-!
# Every command is handed out once

Transitions may be pushed, ticks played and the clock advanced in any order. A tick may be played many
times or never. This module says of every such run which call hands out which command: the first one
after the push that plays the transition's last tick.

* `CompletedBy`: a call is that first one, for a transition that was pushed by an earlier call.
* `AccountsFor`: what holds along a run. For each tick still to come, the commands that the timeline
  would hand out are those of the transitions that end then and that no call has completed.
* `handed_out_once`: the commands that a call hands out are those of the transitions that it completes,
  in the order of the pushes; and if no tick is skipped, none is left behind.
-/

namespace OrbPuzzle.Timeline

variable {κ : Type}

/-! ## Runs of a timeline -/

/-- A call on a timeline. -/
inductive Operation (κ : Type) where
  | push (added : Transition κ)
  | play (board : Grid)
  | advance

/-- The transition that a call adds. -/
def Operation.pushed? : Operation κ → Option (Transition κ)
  | .push added => some added
  | .play _ => none
  | .advance => none

def Operation.isPlay : Operation κ → Bool
  | .play _ => true
  | _ => false

def Operation.isAdvance : Operation κ → Bool
  | .advance => true
  | _ => false

/-- One call of a run: the timeline before and after it, and the commands it handed out. -/
structure Record (κ : Type) where
  before : Timeline κ
  operation : Operation κ
  after : Timeline κ
  returned : List κ

/-- Makes a call on a timeline. Only playing hands out commands. -/
def perform (t : Timeline κ) (operation : Operation κ) : Except Fault (Record κ) :=
  match operation with
  | .push added => .ok ⟨t, operation, t.push added, []⟩
  | .play board =>
    let (after, _, returned) := t.play board
    .ok ⟨t, operation, after, returned⟩
  | .advance => do
    let after ← t.advance
    return ⟨t, operation, after, []⟩

/-- Makes calls one after the other. Gives their records, and the timeline after the last of them. -/
def run (t : Timeline κ) (operations : List (Operation κ)) :
    Except Fault (List (Record κ) × Timeline κ) :=
  runAll perform Record.after t operations

/-! ## The first call that plays a tick -/

/-- The transition that a call of a run has pushed. Calls are numbered from zero. -/
def pushedAt (records : List (Record κ)) (i : Nat) : Option (Transition κ) :=
  records[i]?.bind (·.operation.pushed?)

/-- The command that a call of a run has pushed. -/
def commandAt (records : List (Record κ)) (i : Nat) : Option κ :=
  (pushedAt records i).bind (·.onDone)

/-- A call of a run plays a tick. -/
def PlaysAt (records : List (Record κ)) (j tick : Nat) : Prop :=
  ∃ record ∈ records[j]?, record.operation.isPlay = true ∧ record.before.tick = tick

/-- Every tick is played before the clock is advanced past it. -/
def PlaysEveryTick (records : List (Record κ)) : Prop :=
  ∀ a < records.length, ∀ record ∈ records[a]?, record.operation.isAdvance = true →
    ∃ p < a, PlaysAt records p record.before.tick

/-- Call `j` completes the transition that call `i` has pushed: it is the first one after the push to
play the transition's last tick. -/
def CompletedBy (records : List (Record κ)) (i j : Nat) : Prop :=
  i < j ∧ ∃ added ∈ pushedAt records i, PlaysAt records j added.stop ∧
    ∀ k < j, i < k → ¬ PlaysAt records k added.stop

instance (records : List (Record κ)) (j tick : Nat) : Decidable (PlaysAt records j tick) :=
  inferInstanceAs (Decidable (∃ record ∈ records[j]?, _))

instance (records : List (Record κ)) : Decidable (PlaysEveryTick records) :=
  inferInstanceAs (Decidable (∀ a < records.length, _))

instance (records : List (Record κ)) (i j : Nat) : Decidable (CompletedBy records i j) :=
  inferInstanceAs (Decidable (i < j ∧ ∃ added ∈ pushedAt records i, _))

/-- The commands of the transitions that a call completes, in the order of their pushes. -/
def completed (records : List (Record κ)) (j : Nat) : List κ :=
  (List.range j).filterMap fun i => if CompletedBy records i j then commandAt records i else none

/-- The transition that call `i` has pushed ends at a tick, and no call has completed it. -/
def Outstanding (records : List (Record κ)) (tick i : Nat) : Prop :=
  ∃ added ∈ pushedAt records i, added.stop = tick ∧
    ∀ k < records.length, i < k → ¬ PlaysAt records k tick

instance (records : List (Record κ)) (tick i : Nat) : Decidable (Outstanding records tick i) :=
  inferInstanceAs (Decidable (∃ added ∈ pushedAt records i, _))

/-- The commands of the transitions that end at a tick and that no call has completed, in the order of
their pushes. -/
def outstanding (records : List (Record κ)) (tick : Nat) : List κ :=
  (List.range records.length).filterMap fun i =>
    if Outstanding records tick i then commandAt records i else none

/-! ## One call more -/

section Append

variable {records : List (Record κ)} {record : Record κ} {i j tick : Nat}

/-- A call of the longer run is an earlier one or the new one. -/
theorem getElem?_append_cases {called : Record κ} (h : called ∈ (records ++ [record])[i]?) :
    i < records.length ∧ called ∈ records[i]? ∨ i = records.length ∧ called = record := by
  rcases Nat.lt_or_ge i records.length with hlt | hge
  · rw [List.getElem?_append_left hlt] at h
    exact .inl ⟨hlt, h⟩
  · rw [List.getElem?_append_right hge, List.getElem?_singleton] at h
    split at h
    · have hi : i = records.length := by omega
      exact .inr ⟨hi, (Option.some.inj h).symm⟩
    · cases h

theorem pushedAt_append_of_lt (h : i < records.length) :
    pushedAt (records ++ [record]) i = pushedAt records i := by
  rw [pushedAt, List.getElem?_append_left h, pushedAt]

theorem pushedAt_append_length :
    pushedAt (records ++ [record]) records.length = record.operation.pushed? := by
  rw [pushedAt, List.getElem?_concat_length, Option.bind_some]

theorem commandAt_append_of_lt (h : i < records.length) :
    commandAt (records ++ [record]) i = commandAt records i := by
  rw [commandAt, pushedAt_append_of_lt h, commandAt]

theorem playsAt_append_of_lt (h : j < records.length) :
    PlaysAt (records ++ [record]) j tick ↔ PlaysAt records j tick := by
  rw [PlaysAt, List.getElem?_append_left h, PlaysAt]

theorem playsAt_append_length :
    PlaysAt (records ++ [record]) records.length tick ↔
      record.operation.isPlay = true ∧ record.before.tick = tick := by
  rw [PlaysAt, List.getElem?_concat_length]
  simp

theorem completedBy_append_of_lt (h : j < records.length) :
    CompletedBy (records ++ [record]) i j ↔ CompletedBy records i j := by
  unfold CompletedBy
  refine and_congr_right fun hij => ?_
  rw [pushedAt_append_of_lt (Nat.lt_trans hij h)]
  -- every call that is looked at comes before the new one
  have hplays (k : Nat) (hk : k ≤ j) (tick : Nat) :
      PlaysAt (records ++ [record]) k tick ↔ PlaysAt records k tick :=
    playsAt_append_of_lt (Nat.lt_of_le_of_lt hk h)
  simp +contextual only [hplays, Nat.le_refl, Nat.le_of_lt]

theorem completed_append_of_lt (h : j < records.length) :
    completed (records ++ [record]) j = completed records j := by
  refine List.filterMap_congr ?_
  intro i hi
  have hij : i < j := List.mem_range.mp hi
  simp only [completedBy_append_of_lt h, commandAt_append_of_lt (Nat.lt_trans hij h)]

/-- A call that plays a tick completes whatever is outstanding for that tick. -/
theorem completedBy_append_length (h : i < records.length) :
    CompletedBy (records ++ [record]) i records.length ↔
      record.operation.isPlay = true ∧ Outstanding records record.before.tick i := by
  unfold CompletedBy Outstanding
  rw [pushedAt_append_of_lt h]
  constructor
  · rintro ⟨-, added, hadded, hplays, hfirst⟩
    obtain ⟨hplay, htick⟩ := playsAt_append_length.mp hplays
    refine ⟨hplay, added, hadded, htick.symm, ?_⟩
    intro k hk hik hplayed
    rw [htick] at hplayed
    exact hfirst k hk hik ((playsAt_append_of_lt hk).mpr hplayed)
  · rintro ⟨hplay, added, hadded, hstop, hnone⟩
    rw [← hstop] at hnone
    refine ⟨h, added, hadded, playsAt_append_length.mpr ⟨hplay, hstop.symm⟩, ?_⟩
    intro k hk hik hplayed
    exact hnone k hk hik ((playsAt_append_of_lt hk).mp hplayed)

/-- Only a call that plays its tick hands anything out. -/
theorem completed_append_length :
    completed (records ++ [record]) records.length =
      if record.operation.isPlay then outstanding records record.before.tick else [] := by
  by_cases hplay : record.operation.isPlay = true
  · rw [if_pos hplay]
    refine List.filterMap_congr ?_
    intro i hi
    have hi : i < records.length := List.mem_range.mp hi
    simp only [completedBy_append_length hi, commandAt_append_of_lt hi, hplay, true_and]
  · rw [if_neg hplay, completed, List.filterMap_eq_nil_iff]
    intro i hi
    refine if_neg fun hcompleted => hplay ?_
    exact ((completedBy_append_length (List.mem_range.mp hi)).mp hcompleted).1

/-- What is outstanding stays so, unless its tick is played. -/
theorem outstanding_append_of_lt (h : i < records.length) :
    Outstanding (records ++ [record]) tick i ↔
      Outstanding records tick i ∧
        ¬ (record.operation.isPlay = true ∧ record.before.tick = tick) := by
  unfold Outstanding
  rw [pushedAt_append_of_lt h, List.length_append, List.length_singleton]
  constructor
  · rintro ⟨added, hadded, hstop, hnone⟩
    refine ⟨⟨added, hadded, hstop, ?_⟩, ?_⟩
    · intro k hk hik hplayed
      exact hnone k (by omega) hik ((playsAt_append_of_lt hk).mpr hplayed)
    · intro hplays
      exact hnone records.length (by omega) h (playsAt_append_length.mpr hplays)
  · rintro ⟨⟨added, hadded, hstop, hnone⟩, hplays⟩
    refine ⟨added, hadded, hstop, ?_⟩
    intro k hk hik hplayed
    rcases Nat.lt_or_eq_of_le (Nat.le_of_lt_succ hk) with hlt | rfl
    · exact hnone k hlt hik ((playsAt_append_of_lt hlt).mp hplayed)
    · exact hplays (playsAt_append_length.mp hplayed)

/-- What was just pushed is outstanding for the tick at which it ends. -/
theorem outstanding_append_length :
    Outstanding (records ++ [record]) tick records.length ↔
      ∃ added ∈ record.operation.pushed?, added.stop = tick := by
  unfold Outstanding
  rw [pushedAt_append_length, List.length_append, List.length_singleton]
  constructor
  · rintro ⟨added, hadded, hstop, -⟩
    exact ⟨added, hadded, hstop⟩
  · rintro ⟨added, hadded, hstop⟩
    refine ⟨added, hadded, hstop, ?_⟩
    intro k hk hlater
    omega

/-- What is outstanding for a tick after one call more. -/
theorem outstanding_append :
    outstanding (records ++ [record]) tick =
      (if record.operation.isPlay = true ∧ record.before.tick = tick then []
        else outstanding records tick)
      ++ (record.operation.pushed?.bind (·.dueAt tick)).toList := by
  have hearlier : ∀ i ∈ List.range records.length,
      (if Outstanding (records ++ [record]) tick i then commandAt (records ++ [record]) i else none) =
        if Outstanding records tick i ∧
            ¬ (record.operation.isPlay = true ∧ record.before.tick = tick)
          then commandAt records i else none := by
    intro i hi
    have hi : i < records.length := List.mem_range.mp hi
    simp only [outstanding_append_of_lt hi, commandAt_append_of_lt hi]
  have hlast : (if Outstanding (records ++ [record]) tick records.length
      then commandAt (records ++ [record]) records.length else none) =
        record.operation.pushed?.bind (·.dueAt tick) := by
    simp only [outstanding_append_length, commandAt, pushedAt_append_length]
    cases record.operation.pushed? with
    | none => simp
    | some added => simp [Transition.dueAt]
  rw [outstanding, List.length_append, List.length_singleton, List.range_succ,
    List.filterMap_append, List.filterMap_congr hearlier, List.filterMap_cons, hlast]
  refine congrArg₂ (· ++ ·) ?_ rfl
  by_cases hplays : record.operation.isPlay = true ∧ record.before.tick = tick
  · simp [hplays]
  · simp only [hplays, not_false_eq_true, and_true, if_false, outstanding]

end Append

/-! ## Along a run -/

/-- What a call does to a timeline. -/
theorem perform_eq_ok {t : Timeline κ} {operation : Operation κ} {record : Record κ}
    (h : t.perform operation = .ok record) :
    (∃ added, record = ⟨t, .push added, t.push added, []⟩) ∨
      (∃ board, record = ⟨t, .play board, t.played, t.due⟩) ∨
      record = ⟨t, .advance, { t with tick := t.tick + 1 }, []⟩ := by
  cases operation with
  | push added =>
    cases h
    exact .inl ⟨added, rfl⟩
  | play board =>
    cases h
    exact .inr (.inl ⟨board, rfl⟩)
  | advance =>
    obtain ⟨after, hafter, h⟩ := bind_eq_ok_iff.mp h
    obtain ⟨tick, htick, hafter⟩ := bind_eq_ok_iff.mp hafter
    obtain rfl := pure_eq_ok_iff.mp hafter
    obtain rfl := pure_eq_ok_iff.mp h
    rw [← (Count.add_eq_ok_iff.mp htick).1]
    exact .inr (.inr rfl)

/-- The timeline holds what is outstanding, for every tick still to come, and each call has handed out
what it completed. -/
structure AccountsFor (records : List (Record κ)) (t : Timeline κ) : Prop where
  dueAt_eq : ∀ tick, t.tick ≤ tick → t.dueAt tick = outstanding records tick
  returned_eq : ∀ j, ∀ record ∈ records[j]?, record.returned = completed records j

theorem accountsFor_nil (first : Nat) : AccountsFor [] ({ tick := first } : Timeline κ) where
  dueAt_eq := fun _ _ => rfl
  returned_eq := fun _ _ h => nomatch h

/-- A call is accounted for if it hands out what is due and keeps the rest. -/
theorem AccountsFor.append {records : List (Record κ)} {record : Record κ}
    (h : AccountsFor records record.before) (hclock : record.before.tick ≤ record.after.tick)
    (hreturned : record.returned = if record.operation.isPlay then record.before.due else [])
    (hkept : ∀ tick, record.after.tick ≤ tick → record.after.dueAt tick =
      (if record.operation.isPlay = true ∧ record.before.tick = tick then []
        else record.before.dueAt tick)
      ++ (record.operation.pushed?.bind (·.dueAt tick)).toList) :
    AccountsFor (records ++ [record]) record.after := by
  refine ⟨?_, ?_⟩
  · intro tick htick
    rw [hkept tick htick, outstanding_append, h.dueAt_eq tick (Nat.le_trans hclock htick)]
  · intro j called hcalled
    rcases getElem?_append_cases hcalled with ⟨hlt, hcalled⟩ | ⟨rfl, rfl⟩
    · rw [completed_append_of_lt hlt, h.returned_eq j called hcalled]
    · rw [completed_append_length, hreturned, ← h.dueAt_eq _ (Nat.le_refl _)]
      rfl

/-- No call upsets the account. -/
theorem accountsFor_of_perform {records : List (Record κ)} {t : Timeline κ}
    {operation : Operation κ} {record : Record κ} (h : AccountsFor records t)
    (hrecord : t.perform operation = .ok record) :
    AccountsFor (records ++ [record]) record.after := by
  obtain ⟨added, rfl⟩ | ⟨board, rfl⟩ | rfl := perform_eq_ok hrecord
  · refine AccountsFor.append h (Nat.le_refl _) rfl ?_
    intro tick _
    simp [Operation.isPlay, Operation.pushed?, dueAt_push]
  · refine AccountsFor.append h (Nat.le_refl _) rfl ?_
    intro tick htick
    simp [Operation.isPlay, Operation.pushed?, t.dueAt_played htick]
  · refine AccountsFor.append h (Nat.le_succ _) rfl ?_
    intro tick _
    simp [Operation.isPlay, Operation.pushed?, dueAt]

/-! ## The clock -/

/-- The clock has gone from its first tick to the present one, tick by tick and never back. -/
structure Clocked (first : Nat) (records : List (Record κ)) (t : Timeline κ) : Prop where
  first_le : first ≤ t.tick
  between : ∀ i : Nat, ∀ record ∈ records[i]?,
    first ≤ record.before.tick ∧ record.before.tick ≤ t.tick
  lt_of_tick_lt : ∀ i j : Nat, ∀ earlier ∈ records[i]?, ∀ later ∈ records[j]?,
    earlier.before.tick < later.before.tick → i < j
  advanced : ∀ tick, first ≤ tick → tick < t.tick →
    ∃ a : Nat, ∃ record ∈ records[a]?,
      record.operation.isAdvance = true ∧ record.before.tick = tick

theorem clocked_nil (first : Nat) : Clocked first [] ({ tick := first } : Timeline κ) where
  first_le := Nat.le_refl _
  between := fun _ _ h => nomatch h
  lt_of_tick_lt := fun _ _ _ h => nomatch h
  advanced := fun _ hle hlt => absurd hle (Nat.not_le_of_lt hlt)

/-- The clock stays, or an advance moves it on by one tick. -/
theorem tick_after_of_perform {t : Timeline κ} {operation : Operation κ} {record : Record κ}
    (h : t.perform operation = .ok record) :
    record.before = t ∧ (record.after.tick = t.tick ∨
      record.operation.isAdvance = true ∧ record.after.tick = t.tick + 1) := by
  obtain ⟨added, rfl⟩ | ⟨board, rfl⟩ | rfl := perform_eq_ok h
  · exact ⟨rfl, .inl rfl⟩
  · exact ⟨rfl, .inl rfl⟩
  · exact ⟨rfl, .inr ⟨rfl, rfl⟩⟩

theorem clocked_of_perform {first : Nat} {records : List (Record κ)} {t : Timeline κ}
    {operation : Operation κ} {record : Record κ} (h : Clocked first records t)
    (hrecord : t.perform operation = .ok record) :
    Clocked first (records ++ [record]) record.after := by
  obtain ⟨rfl, hafter⟩ := tick_after_of_perform hrecord
  have hle : record.before.tick ≤ record.after.tick := by
    rcases hafter with hafter | ⟨-, hafter⟩ <;> omega
  refine ⟨Nat.le_trans h.first_le hle, ?_, ?_, ?_⟩
  · intro i called hcalled
    rcases getElem?_append_cases hcalled with ⟨-, hcalled⟩ | ⟨-, rfl⟩
    · have hbetween := h.between i called hcalled
      omega
    · exact ⟨h.first_le, hle⟩
  · intro i j earlier hearlier later hlater hlt
    rcases getElem?_append_cases hearlier with ⟨hi, hearlier⟩ | ⟨-, rfl⟩
    · rcases getElem?_append_cases hlater with ⟨-, hlater⟩ | ⟨rfl, -⟩
      · exact h.lt_of_tick_lt i j earlier hearlier later hlater hlt
      · exact hi
    · -- nothing is at a later tick than the newest call
      rcases getElem?_append_cases hlater with ⟨-, hlater⟩ | ⟨-, rfl⟩
      · have hbetween := h.between j later hlater
        omega
      · omega
  · intro tick hfirst hlt
    by_cases hpast : tick < record.before.tick
    · obtain ⟨a, called, hcalled, hadvance⟩ := h.advanced tick hfirst hpast
      have ha : a < records.length := (List.getElem?_eq_some_iff.mp hcalled).1
      refine ⟨a, called, ?_, hadvance⟩
      rw [List.getElem?_append_left ha]
      exact hcalled
    · rcases hafter with hafter | ⟨hadvance, hafter⟩
      · omega
      · exact ⟨records.length, record, List.getElem?_concat_length, hadvance, by omega⟩

/-! ## Every run -/

section Runs

variable {first : Nat} {operations : List (Operation κ)} {records : List (Record κ)}
  {final : Timeline κ} {i j k : Nat}

theorem accountsFor_and_clocked_of_run
    (h : ({ tick := first } : Timeline κ).run operations = .ok (records, final)) :
    AccountsFor records final ∧ Clocked first records final := by
  refine runAll_induction (motive := fun records t => AccountsFor records t ∧ Clocked first records t)
    ⟨accountsFor_nil first, clocked_nil first⟩ ?_ h
  rintro records t operation record ⟨haccount, hclock⟩ hrecord
  exact ⟨accountsFor_of_perform haccount hrecord, clocked_of_perform hclock hrecord⟩

/-- If its last tick is played after it was pushed, a transition is completed. -/
theorem exists_completedBy {added : Transition κ} (hadded : added ∈ pushedAt records i)
    (hij : i < j) (hplays : PlaysAt records j added.stop) : ∃ j, CompletedBy records i j := by
  -- go back from one such call to the first one
  induction j using Nat.strongRecOn with
  | ind j ih =>
    by_cases hearlier : ∃ k < j, i < k ∧ PlaysAt records k added.stop
    · obtain ⟨k, hkj, hik, hplayed⟩ := hearlier
      exact ih k hkj hik hplayed
    · refine ⟨j, hij, added, hadded, hplays, ?_⟩
      intro k hkj hik hplayed
      exact hearlier ⟨k, hkj, hik, hplayed⟩

/-- No transition is completed twice. -/
theorem CompletedBy.unique (hj : CompletedBy records i j) (hk : CompletedBy records i k) :
    j = k := by
  obtain ⟨hij, added, hadded, hplays, hfirst⟩ := hj
  obtain ⟨hik, same, hsame, hplays', hfirst'⟩ := hk
  obtain rfl := Option.some.inj (hadded.symm.trans hsame)
  rcases Nat.lt_trichotomy j k with hlt | heq | hgt
  · exact absurd hplays (hfirst' j hlt hij)
  · exact heq
  · exact absurd hplays' (hfirst k hgt hik)

/-- A transition's command is handed out by the call that completes it, at the transition's last
tick. -/
theorem AccountsFor.handedOut (haccount : AccountsFor records final) {added : Transition κ}
    (hadded : added ∈ pushedAt records i) (hj : CompletedBy records i j) :
    ∃ play ∈ records[j]?, play.before.tick = added.stop ∧
      ∀ command ∈ added.onDone, command ∈ play.returned := by
  have hcompleted := hj
  obtain ⟨hij, same, hsame, ⟨play, hplay, -, htick⟩, -⟩ := hcompleted
  obtain rfl := Option.some.inj (hadded.symm.trans hsame)
  refine ⟨play, hplay, htick, ?_⟩
  intro command hcommand
  have hcommandAt : commandAt records i = some command := by
    rw [commandAt, show pushedAt records i = some added from hadded]
    exact hcommand
  rw [haccount.returned_eq j play hplay, completed, List.mem_filterMap]
  refine ⟨i, List.mem_range.mpr hij, ?_⟩
  rw [if_pos hj, hcommandAt]

/-- If no tick is skipped, then a transition that ends after its push has been completed by the time
the clock has passed its last tick. -/
theorem Clocked.exists_completedBy (hclock : Clocked first records final)
    (hevery : PlaysEveryTick records) {record : Record κ} {added : Transition κ}
    (hrecord : record ∈ records[i]?) (hadded : record.operation.pushed? = some added)
    (hahead : record.before.tick < added.stop) (hpassed : added.stop < final.tick) :
    ∃ j, CompletedBy records i j := by
  have hfirst := (hclock.between i record hrecord).1
  obtain ⟨a, advance, hadvance, hisAdvance, htick⟩ :=
    hclock.advanced added.stop (by omega) hpassed
  have ha : a < records.length := (List.getElem?_eq_some_iff.mp hadvance).1
  -- the clock left the last tick at call `a`, so the tick was played before, yet after the push
  obtain ⟨p, -, play, hplay, hisPlay, hplayed⟩ := hevery a ha advance hadvance hisAdvance
  have hip : i < p := hclock.lt_of_tick_lt i p record hrecord play hplay (by omega)
  refine Timeline.exists_completedBy ?_ hip ⟨play, hplay, hisPlay, hplayed.trans htick⟩
  rw [pushedAt, show records[i]? = some record from hrecord]
  exact hadded

/-- Each call hands out the commands of the transitions it completes, in the order of their pushes.
A transition whose last tick is played after its push is completed by exactly one call, and that call
hands out its command at its last tick. If no tick is skipped, then every transition that was pushed
before its last tick is completed by the time this tick has passed. -/
theorem handed_out_once
    (h : ({ tick := first } : Timeline κ).run operations = .ok (records, final)) :
    (∀ j : Nat, ∀ record ∈ records[j]?, record.returned = completed records j) ∧
      (∀ i, ∀ added ∈ pushedAt records i,
        ((∃ j, i < j ∧ PlaysAt records j added.stop) → ∃! j, CompletedBy records i j) ∧
        ∀ j, CompletedBy records i j → ∃ play ∈ records[j]?, play.before.tick = added.stop ∧
          ∀ command ∈ added.onDone, command ∈ play.returned) ∧
      (PlaysEveryTick records → ∀ i : Nat, ∀ record ∈ records[i]?,
        ∀ added ∈ record.operation.pushed?, record.before.tick < added.stop →
          added.stop < final.tick → ∃! j, CompletedBy records i j) := by
  obtain ⟨haccount, hclock⟩ := accountsFor_and_clocked_of_run h
  have hunique (i : Nat) (hi : ∃ j, CompletedBy records i j) : ∃! j, CompletedBy records i j := by
    obtain ⟨j, hj⟩ := hi
    exact ⟨j, hj, fun _ hk => hk.unique hj⟩
  refine ⟨haccount.returned_eq, ?_, ?_⟩
  · intro i added hadded
    refine ⟨?_, fun j hj => haccount.handedOut hadded hj⟩
    rintro ⟨j, hij, hplays⟩
    exact hunique i (exists_completedBy hadded hij hplays)
  · intro hevery i record hrecord added hadded hahead hpassed
    exact hunique i (hclock.exists_completedBy hevery hrecord hadded hahead hpassed)

/-- Two transitions that are pushed at different ticks and end at the same one, which is played
twice. -/
def shortOperations : List (Operation Nat) :=
  let board : Grid := ⟨0, #[], 0, rfl⟩
  [.push ⟨0, 2, none, some 7, by decide⟩, .play board, .advance,
    .push ⟨1, 2, none, some 8, by decide⟩, .play board, .advance,
    .play board, .play board, .advance]

/-- Both commands are handed out when their tick is first played, and not again. -/
theorem handed_out_once_shortOperations :
    ∃ records final, ({} : Timeline Nat).run shortOperations = .ok (records, final) ∧
      PlaysEveryTick records ∧
      records.map Record.returned = [[], [], [], [], [], [], [7, 8], [], []] ∧
      ∃! j, CompletedBy records 3 j := by
  obtain ⟨⟨records, final⟩, hrun, htest⟩ := exists_of_any_toOption
    (x := ({} : Timeline Nat).run shortOperations)
    (fun r => decide (PlaysEveryTick r.1 ∧ r.2.tick = 3 ∧
      r.1.map Record.returned = [[], [], [], [], [], [], [7, 8], [], []] ∧
      ∃ record ∈ r.1[(3 : Nat)]?, record.before.tick = 1 ∧
        ∃ added ∈ record.operation.pushed?, added.stop = 2)) (by decide +kernel)
  obtain ⟨hevery, hfinal, hreturned, record, hrecord, htick, added, hadded, hstop⟩ :=
    of_decide_eq_true htest
  have hahead : record.before.tick < added.stop := by omega
  have hpassed : added.stop < final.tick := by
    show added.stop < (records, final).2.tick
    omega
  exact ⟨records, final, hrun, hevery, hreturned,
    (handed_out_once hrun).2.2 hevery 3 record hrecord added hadded hahead hpassed⟩

end Runs

end OrbPuzzle.Timeline
