import OrbPuzzle.Proofs.Faults
import OrbPuzzle.Session.Click
import OrbPuzzle.Session.Step

/-!
# Runs of a game

The outside makes calls on a game, one after the other and in any order: clicks, steps and frames. A
run is such a list of calls, none of which faults. Each call is recorded as a turn, with the game it
was made on, the commands that were carried out, and the reply.

`perform_eq_ok` says what a turn can be: a click on some cell, or a step that may be followed by an
advance.
-/

namespace OrbPuzzle.Session

variable {σ : Type}

/-- A call on a game. A frame may be painted on any kind of surface. -/
inductive Call : Type 1 where
  | click (x y surfaceSize : Single)
  | clickCell (pos : Pos)
  | step
  | update
  | frame {τ : Type} [Surface τ] (surface : τ)

/-- The commands as they are carried out in order, each with the game it is carried out on. A fault
ends the list. -/
def executions [Store σ] (s : Session σ) : List Command → List (Session σ × Command)
  | [] => []
  | command :: rest =>
    (s, command) ::
      match s.execute command with
      | .error _ => []
      | .ok reply => reply.state.executions rest

/-- The game when the current tick is played, before any command is carried out. -/
def animated (s : Session σ) : Session σ :=
  { s with timeline := s.timeline.played, grid := s.timeline.animate s.grid }

/-- The commands that a step carries out, each with the game it is carried out on. -/
def stepExecutions [Store σ] (s : Session σ) : List (Session σ × Command) :=
  s.animated.executions s.timeline.due

/-- One call of a run: the game before it, the commands carried out, and the reply. -/
structure Turn (σ : Type) where
  before : Session σ
  executed : List (Session σ × Command)
  reply : Reply (Session σ) (Option ClickOutcome)

/-- The game after a turn. -/
def Turn.after (turn : Turn σ) : Session σ := turn.reply.state

/-- Makes a call on a game. Only clicks answer anything. -/
def perform [Store σ] (s : Session σ) : Call → Except Fault (Turn σ)
  | .click x y surfaceSize => do
    let reply ← s.click x y surfaceSize
    return ⟨s, [], reply.mapAnswer some⟩
  | .clickCell pos => do
    let reply ← s.clickCell pos
    return ⟨s, [], reply.mapAnswer some⟩
  | .step => do
    let after ← s.step
    return ⟨s, s.stepExecutions, ⟨after, .ok none⟩⟩
  | .update => do
    let after ← s.update
    return ⟨s, s.stepExecutions, ⟨after, .ok none⟩⟩
  | @Call.frame _ _ surface => do
    let (after, _) ← s.frame surface
    return ⟨s, s.stepExecutions, ⟨after, .ok none⟩⟩

/-- Makes calls one after the other. Gives the turns, and the game after the last of them. -/
def run [Store σ] (s : Session σ) (calls : List Call) : Except Fault (List (Turn σ) × Session σ) :=
  runAll perform Turn.after s calls

/-! ## Taking a run apart -/

theorem step_eq_executeAll [Store σ] (s : Session σ) :
    s.step = s.animated.executeAll s.timeline.due := rfl

/-- Painting a frame has no part in the game. -/
theorem perform_frame [Store σ] {τ : Type} [Surface τ] (s : Session σ) (surface : τ) :
    s.perform (.frame surface) = s.perform .update := by
  unfold perform update frame
  cases s.step with
  | error fault => rfl
  | ok stepped =>
    cases h : stepped.advance with
    | error fault => simp [bind, Except.bind, h]
    | ok after => simp [bind, Except.bind, h, pure, Except.pure]

/-- A turn is a click on a cell, or a step after which the clock may move on. -/
theorem perform_eq_ok [Store σ] {s : Session σ} {call : Call} {turn : Turn σ}
    (h : s.perform call = .ok turn) :
    (∃ pos reply, s.clickCell pos = .ok reply ∧ turn = ⟨s, [], reply.mapAnswer some⟩) ∨
      ∃ stepped after, s.step = .ok stepped ∧ (after = stepped ∨ stepped.advance = .ok after) ∧
        turn = ⟨s, s.stepExecutions, ⟨after, .ok none⟩⟩ := by
  cases call with
  | click x y surfaceSize =>
    obtain ⟨reply, hreply, h⟩ := bind_eq_ok_iff.mp h
    exact .inl ⟨_, reply, hreply, (pure_eq_ok_iff.mp h).symm⟩
  | clickCell pos =>
    obtain ⟨reply, hreply, h⟩ := bind_eq_ok_iff.mp h
    exact .inl ⟨pos, reply, hreply, (pure_eq_ok_iff.mp h).symm⟩
  | step =>
    obtain ⟨stepped, hstep, h⟩ := bind_eq_ok_iff.mp h
    exact .inr ⟨stepped, stepped, hstep, .inl rfl, (pure_eq_ok_iff.mp h).symm⟩
  | update =>
    obtain ⟨after, hupdate, h⟩ := bind_eq_ok_iff.mp h
    obtain ⟨stepped, hstep, hadvance⟩ := bind_eq_ok_iff.mp hupdate
    exact .inr ⟨stepped, after, hstep, .inr hadvance, (pure_eq_ok_iff.mp h).symm⟩
  | frame surface =>
    obtain ⟨⟨after, painted⟩, hframe, h⟩ := bind_eq_ok_iff.mp h
    obtain ⟨stepped, hstep, hframe⟩ := bind_eq_ok_iff.mp hframe
    obtain ⟨advanced, hadvance, hframe⟩ := bind_eq_ok_iff.mp hframe
    obtain ⟨rfl, -⟩ := Prod.mk.inj (pure_eq_ok_iff.mp hframe)
    exact .inr ⟨stepped, advanced, hstep, .inr hadvance, (pure_eq_ok_iff.mp h).symm⟩

/-! ## A short game -/

/-- The colours of a small board. No line is uniform, but exchanging the two orbs of the first row
makes the second column red. -/
def crossedColor : Pos → Color
  | ⟨0, 0⟩ => .red
  | ⟨1, 1⟩ => .red
  | ⟨0, _⟩ => .blue
  | _ => .green

/-- The small board with these colours. -/
def crossedGrid : Grid where
  size := 2
  tiles := Grid.tabulateTiles 2 crossedColor
  nextId := 4
  tiles_size := Array.size_ofFn

/-- A new game on the small board, in which every phase takes one tick. -/
def shortGame : Session MemoryStore := start { phaseTicks := 1 } .inMemory crossedGrid ⟨0⟩

/-- Calls that select an orb, swap it with its neighbour and let a clearing run to its end. -/
def shortCalls : List Call :=
  .clickCell ⟨0, 0⟩ :: List.replicate 3 .update
    ++ .clickCell ⟨1, 0⟩ :: List.replicate 7 .update

end OrbPuzzle.Session
