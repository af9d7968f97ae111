import OrbPuzzle.Transition

/-!
# Reading a result backwards

An operation that can fault is a chain of checked steps. If the chain has a result, each of its
steps had one; the lemmas here take such a chain apart, one step at a time.

The longest chains are runs, in which the outside makes calls one after the other. `runAll_induction`
proves what holds after every run from what each single call keeps.
-/

namespace OrbPuzzle

/-- A chain of two steps has a result exactly if the first one has and the second one has on it. -/
theorem bind_eq_ok_iff {ε α β : Type} {x : Except ε α} {f : α → Except ε β} {b : β} :
    (x >>= f) = .ok b ↔ ∃ a, x = .ok a ∧ f a = .ok b := by
  constructor
  · intro h
    cases x with
    | error e => cases h
    | ok a => exact ⟨a, rfl, h⟩
  · rintro ⟨a, rfl, h⟩
    exact h

/-- A step that only hands a value on has that value as its result. -/
theorem pure_eq_ok_iff {ε α : Type} {a b : α} : (pure a : Except ε α) = .ok b ↔ a = b := by
  constructor
  · intro h
    cases h
    rfl
  · rintro rfl
    rfl

/-- A result that passes a test exists. -/
theorem exists_of_any_toOption {ε α : Type} {x : Except ε α} (test : α → Bool)
    (h : x.toOption.any test = true) : ∃ a, x = .ok a ∧ test a = true := by
  cases x with
  | error e => cases h
  | ok a => exact ⟨a, rfl, h⟩

theorem ne_error_of_isSome_toOption {ε α : Type} {x : Except ε α} {e : ε}
    (h : x.toOption.isSome = true) : x ≠ .error e := by
  rintro rfl
  cases h

theorem eq_ok_of_toOption {ε α : Type} {x : Except ε α} {a : α} (h : x.toOption = some a) :
    x = .ok a := by
  cases x with
  | error e => cases h
  | ok b => exact congrArg Except.ok (Option.some.inj h)

/-- A transition that was made has the span, the motion and the command it was asked for. -/
theorem Transition.make_eq_ok {κ : Type} {start stop : Nat} {motion : Option Motion}
    {onDone : Option κ} {t : Transition κ} (h : make start stop motion onDone = .ok t) :
    t.start = start ∧ t.stop = stop ∧ t.motion = motion ∧ t.onDone = onDone := by
  unfold make at h
  split at h
  · cases h
    exact ⟨rfl, rfl, rfl, rfl⟩
  · cases h

/-! ## Runs -/

section Runs

universe u

variable {ε σ ρ : Type} {ι : Type u} {perform : σ → ι → Except ε ρ} {after : ρ → σ}

/-- Makes calls one after the other, each on the state after the one before. Gives the record of each
call, and the state after the last. -/
def runAll (perform : σ → ι → Except ε ρ) (after : ρ → σ) (s : σ) :
    List ι → Except ε (List ρ × σ)
  | [] => .ok ([], s)
  | call :: rest => do
    let record ← perform s call
    let (records, final) ← runAll perform after (after record) rest
    return (record :: records, final)

theorem runAll_singleton (s : σ) (call : ι) :
    runAll perform after s [call] =
      (perform s call).map fun record => ([record], after record) := by
  unfold runAll
  cases perform s call with
  | error fault => rfl
  | ok record => rfl

/-- A run can be made in two parts. -/
theorem runAll_append (s : σ) (first second : List ι) :
    runAll perform after s (first ++ second) = (do
      let (records, middle) ← runAll perform after s first
      let (later, final) ← runAll perform after middle second
      return (records ++ later, final)) := by
  induction first generalizing s with
  | nil => exact (bind_pure _).symm
  | cons call rest ih => simp only [List.cons_append, runAll, ih, bind_assoc, pure_bind]

/-- What holds of a state before a run, and is kept by each call of the run, holds after it. -/
theorem runAll_induction_mem {motive : List ρ → σ → Prop} {s final : σ} {calls : List ι}
    {records : List ρ} (start : motive [] s)
    (next : ∀ call ∈ calls, ∀ records t record, motive records t → perform t call = .ok record →
      motive (records ++ [record]) (after record))
    (h : runAll perform after s calls = .ok (records, final)) : motive records final := by
  -- the records already made are moved into the motive
  induction calls generalizing s motive records with
  | nil =>
    cases h
    exact start
  | cons call rest ih =>
    obtain ⟨record, hrecord, h⟩ := bind_eq_ok_iff.mp h
    obtain ⟨⟨later, last⟩, hlater, h⟩ := bind_eq_ok_iff.mp h
    obtain ⟨rfl, rfl⟩ := Prod.mk.inj (pure_eq_ok_iff.mp h)
    refine ih (motive := fun records t => motive (record :: records) t) ?_ ?_ hlater
    · exact next call List.mem_cons_self [] s record start hrecord
    · intro call' hcall' records t record' hrecords hrecord'
      have hmem : call' ∈ call :: rest := List.mem_cons_of_mem _ hcall'
      exact next call' hmem (record :: records) t record' hrecords hrecord'

/-- What holds of a state before any call, and is kept by each call, holds after every run. -/
theorem runAll_induction {motive : List ρ → σ → Prop} {s final : σ} {calls : List ι}
    {records : List ρ} (start : motive [] s)
    (next : ∀ records t call record, motive records t → perform t call = .ok record →
      motive (records ++ [record]) (after record))
    (h : runAll perform after s calls = .ok (records, final)) : motive records final :=
  runAll_induction_mem start (fun call _ records t record => next records t call record) h

end Runs

end OrbPuzzle
