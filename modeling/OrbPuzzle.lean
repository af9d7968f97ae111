import OrbPuzzle.Board
import OrbPuzzle.Painting.Recorder
import OrbPuzzle.Proofs.Faults
import OrbPuzzle.Proofs.Grid.Faces
import OrbPuzzle.Proofs.Timeline.Pending
import OrbPuzzle.Proofs.Clearing
import OrbPuzzle.Proofs.Session.Run
import OrbPuzzle.Proofs.Session.Effects
import OrbPuzzle.Proofs.Session.Turn
import OrbPuzzle.Proofs.Session.Pass
import OrbPuzzle.Proofs.Session.Accounting
import OrbPuzzle.Proofs.Timeline.Completion
import OrbPuzzle.Proofs.Store.Document
import OrbPuzzle.Proofs.Store.Persistence
import OrbPuzzle.Proofs.Host
import OrbPuzzle.Proofs.Grid.Identity
import OrbPuzzle.Proofs.Timeline.Course
import OrbPuzzle.Proofs.Session.Operations
import OrbPuzzle.Proofs.Session.HighScore
import OrbPuzzle.Proofs.Session.Identity
import OrbPuzzle.Proofs.Timeline.Landing
import OrbPuzzle.Proofs.Places
import OrbPuzzle.Proofs.Session.Rest
import OrbPuzzle.Proofs.Lockstep
import OrbPuzzle.Proofs.Timeline.Lockstep
import OrbPuzzle.Proofs.Session.Lockstep
import OrbPuzzle.Proofs.Session.Invariance
import OrbPuzzle.Proofs.Session.Progress
import OrbPuzzle.Proofs.Painting.Drawing
import OrbPuzzle.Proofs.Painting.Frame
import OrbPuzzle.Proofs.Board.Headless
import OrbPuzzle.Proofs.Timeline.Tick
import OrbPuzzle.Proofs.Session.Coasting
import OrbPuzzle.Proofs.Session.Refilling
import OrbPuzzle.Proofs.Session.Lock
import OrbPuzzle.Proofs.Session.Exchange
import OrbPuzzle.Proofs.Timeline.Replay
import OrbPuzzle.Proofs.Grid.Detection
import OrbPuzzle.Proofs.Clearing.Queue
import OrbPuzzle.Proofs.Session.Refusal
import OrbPuzzle.Proofs.Board.Sprites
import OrbPuzzle.Proofs.Grid.HitTesting
import OrbPuzzle.Proofs.Layout
import OrbPuzzle.Proofs.Transition
import OrbPuzzle.Proofs.Grid.Slots
