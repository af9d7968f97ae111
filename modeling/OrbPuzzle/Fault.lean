/-!
# Faults

Ticks, tile ids and sizes are counted in 64 bits. A count that would leave that range, a board that
storage cannot hold, and a transition that would not end after its start, are faults: the operation
has no result and the session ends there. `Fault.message` is the only place where their wording
stands.
-/

namespace OrbPuzzle

/-- Why an operation could not be carried out at all. -/
inductive Fault where
  /-- A transition would end at or before its start. -/
  | emptySpan (start stop : Nat)
  /-- A sum of counts does not fit in 64 bits. -/
  | sumTooLarge
  /-- A product of counts does not fit in 64 bits. -/
  | productTooLarge
  /-- More tiles are asked for than storage can hold. -/
  | storageExceeded
deriving DecidableEq, Repr

/-- The text of a fault. -/
def Fault.message : Fault → String
  | .emptySpan start stop =>
    "transformation ends at tick " ++ toString stop ++ ", not after its start " ++ toString start
  | .sumTooLarge => "attempt to add with overflow"
  | .productTooLarge => "attempt to multiply with overflow"
  | .storageExceeded => "capacity overflow"

/-! ## Counting in 64 bits -/

namespace Count

/-- One past the largest count. -/
def limit : Nat := UInt64.size

/-- The sum of two counts. -/
def add (a b : Nat) : Except Fault Nat :=
  if a + b < limit then .ok (a + b) else .error .sumTooLarge

/-- The product of two counts. -/
def mul (a b : Nat) : Except Fault Nat :=
  if a * b < limit then .ok (a * b) else .error .productTooLarge

/-- A sum of counts is given exactly if it is a count. -/
theorem add_eq_ok_iff {a b n : Nat} : add a b = .ok n ↔ a + b = n ∧ n < limit := by
  unfold add
  constructor
  · intro h
    split at h
    · cases h
      exact ⟨rfl, ‹_›⟩
    · cases h
  · rintro ⟨rfl, h⟩
    rw [if_pos h]

/-- A product of counts is given exactly if it is a count. -/
theorem mul_eq_ok_iff {a b n : Nat} : mul a b = .ok n ↔ a * b = n ∧ n < limit := by
  unfold mul
  constructor
  · intro h
    split at h
    · cases h
      exact ⟨rfl, ‹_›⟩
    · cases h
  · rintro ⟨rfl, h⟩
    rw [if_pos h]

end Count

end OrbPuzzle
