import OrbPuzzle.Tile

/-!
# Replies

Naming a cell that the board does not have is an error for the caller, but the state lives on,
possibly changed by what was done before the cell was looked at. So an operation on a state replies
with the state afterwards and, beside it, with an answer or that error.
-/

namespace OrbPuzzle

/-- A state of type `σ` after an operation, and the operation's answer of type `α`. -/
structure Reply (σ α : Type) where
  state : σ
  answer : Except OutOfBounds α

namespace Reply

variable {σ τ α β : Type}

/-- The reply seen as part of a larger state. -/
def mapState (f : σ → τ) (r : Reply σ α) : Reply τ α := ⟨f r.state, r.answer⟩

/-- The reply with another answer in place of its own; an error stays. -/
def mapAnswer (f : α → β) (r : Reply σ α) : Reply σ β := ⟨r.state, r.answer.map f⟩

end Reply

end OrbPuzzle
