import OrbPuzzle.Painting.Sprites
import OrbPuzzle.Session.Click
import OrbPuzzle.Session.Step

/-!
# The windowed board

A board shows a session in a window. The clock and the screen are apart: a tick plays one frame of
the game and paints it on a sprite surface; a screen frame fits the surface to the window, takes
clicks, and moves the sprites to where images were painted last.

## Windows and images

What needs a window happens only if there is exactly one. An image may be loaded at any time, and
again later; its size is noted in the first screen frame that finds it loaded and never changes
after that. Until then its orbs are not painted.
-/

namespace OrbPuzzle

/-- A window. It is measured in logical pixels, and where these are not the pixels of the screen its
width and height need not be whole. -/
structure Window where
  width : Single
  height : Single
deriving DecidableEq

namespace Window

/-- The most pixels of the screen that a window has in either direction: they are counted in 32
bits. -/
def limit : Nat := UInt32.size - 1

/-- The window that is made for a size in pixels of the screen, if these are the logical ones. -/
def ofPixels (e : Extent) : Window := ⟨.ofNat (min e.width limit), .ofNat (min e.height limit)⟩

/-- The width and the height. -/
def size (w : Window) : Point := ⟨w.width, w.height⟩

/-- Whether a place is inside the window. -/
def Contains (w : Window) (p : Point) : Prop :=
  let inRange (v limit : Single) : Prop := .zero false ≤ v ∧ v < limit
  inRange p.x w.width ∧ inRange p.y w.height

instance (w : Window) (p : Point) : Decidable (w.Contains p) :=
  inferInstanceAs (Decidable ((_ ∧ _) ∧ (_ ∧ _)))

end Window

/-- A picture on the screen. It lies at a place in the world and shows the image of a colour. -/
structure Sprite where
  visible : Bool := false
  image : Color := default
  position : Point := .zero
  /-- Sprites of greater depth cover those of smaller depth. -/
  depth : Single := .zero false
  scale : Point := .one
deriving DecidableEq

instance : Inhabited Sprite := ⟨{}⟩

/-- A button of the mouse. -/
inductive Button where
  | left
  | right
deriving DecidableEq, Repr

/-- What a player did in one screen frame. -/
structure Input where
  /-- Where the mouse is, in the window. -/
  cursor : Option Point := none
  /-- The button that was just pressed. -/
  pressed : Option Button := none
  /-- Where a touch just began. -/
  touch : Option Point := none
deriving DecidableEq

/-- A session in a window. -/
structure Board (σ : Type) where
  session : Session σ
  windows : List Window
  surface : SpriteSurface := {}
  /-- The size of each colour's image, once it is loaded. -/
  images : Palette (Option Extent) := .uniform none
  sprites : Array Sprite
  scoreLabel : String := ""
  highScoreLabel : String := ""

namespace Board

variable {σ : Type}

/-- A board that shows a session in the given windows: one hidden sprite for each orb, and two empty
labels. -/
def setup (session : Session σ) (windows : List Window) : Except Fault (Board σ) := do
  let count ← Count.mul session.rules.gridSize session.rules.gridSize
  return { session, windows, sprites := Array.replicate count default }

/-- The window, if there is exactly one. -/
def window? (b : Board σ) : Option Window :=
  match b.windows with
  | [window] => some window
  | _ => none

/-! ## Events -/

/-- Replaces the windows. -/
def setWindows (b : Board σ) (windows : List Window) : Board σ := { b with windows }

/-- An image has been loaded. -/
def loadImage (b : Board σ) (color : Color) (size : Extent) : Board σ :=
  { b with images := b.images.set color (some size) }

/-- A tick of the clock: one frame of the game, painted on the surface. -/
def tick [Store σ] (b : Board σ) : Except Fault (Board σ) := do
  let (session, surface) ← b.session.frame b.surface
  return { b with session, surface }

/-! ## The parts of a screen frame -/

/-- Fits the surface to the window. -/
def updateLayout (b : Board σ) : Board σ :=
  match b.window? with
  | none => b
  | some window => { b with surface.layout := .fit window.width window.height }

/-- Notes the sizes of images that were not known before. -/
def noteImageSizes (b : Board σ) : Board σ :=
  let note (known : Option Point) (loaded : Option Extent) : Option Point :=
    known <|> loaded.map (·.toPoint)
  { b with surface.imageSizes := b.surface.imageSizes.zipWith note b.images }

/-- The place in the window that was pressed. The left button presses where the mouse is, if that is
inside the window; without it a touch counts. -/
def pressed? (b : Board σ) (input : Input) : Option Point :=
  if input.pressed = some .left then do
    let window ← b.window?
    let cursor ← input.cursor
    if window.Contains cursor then some cursor else none
  else input.touch

/-- Hands a press on the surface to the game. -/
def handlePress (b : Board σ) (input : Input) : Except Fault (Board σ) :=
  match (b.pressed? input).bind b.surface.layout.toSurface with
  | none => .ok b
  | some place => do
    let reply ← b.session.click place.x place.y b.surface.layout.size
    return { b with session := reply.state }

/-- How far apart in depth two consecutive sprites are. -/
def depthStep : Single := .ofFraction 1 1000

/-- The sprite of number `index` moved to the image of that number; without such an image it is
hidden where it is. -/
def placeSprite (surface : SpriteSurface) (window : Window) (index : Nat) (sprite : Sprite) :
    Sprite :=
  let painted := do
    let draw ← surface.draws[index]?
    let imageSize ← surface.imageSizes.get draw.color
    return (draw, imageSize)
  match painted with
  | none => { sprite with visible := false }
  | some (draw, imageSize) =>
    { visible := true
      image := draw.color
      position := surface.layout.toWorld (draw.center imageSize) window.size
      depth := .ofNat index * depthStep
      scale := draw.scale }

/-- Moves the sprites to where images were painted last. -/
def placeSprites (b : Board σ) : Board σ :=
  match b.window? with
  | none => b
  | some window => { b with sprites := b.sprites.mapIdx (placeSprite b.surface window) }

/-- Shows the score and the high score. -/
def writeLabels (b : Board σ) : Board σ :=
  { b with
    scoreLabel := "Score: " ++ toString b.session.score
    highScoreLabel := "High score: " ++ toString b.session.highScore }

/-- One screen frame. -/
def frame (b : Board σ) (input : Input) : Except Fault (Board σ) := do
  let b ← b.updateLayout.noteImageSizes.handlePress input
  return b.placeSprites.writeLabels

end Board

end OrbPuzzle
