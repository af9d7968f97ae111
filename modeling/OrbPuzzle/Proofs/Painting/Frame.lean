import OrbPuzzle.Painting.Recorder
import OrbPuzzle.Proofs.Painting.Drawing

/-!
# The strokes of a frame

Painting a board clears the surface and then draws the tiles, each in a block of its own. All tiles
share the placement of the surface, so a block that did not put it back would displace every later
tile.

* `Surface.paintGrid_eq` says which strokes are made, on a surface of any kind. A surface may answer
  anything about its size and its images, also something new after each stroke; a tile is painted
  by what the surface answers when its turn comes.
* `Surface.strokesFrom_congr` compares two kinds of surface. If they answer alike, they are given
  the same strokes. A surface that is watched (`Watched`) gets those that it gets unwatched, and a
  recorder those that a sprite surface gets.
* `SpriteSurface.paintGrid_eq` says what a sprite surface is left with. Nothing that was done to the
  surface before has a part in it.
-/

namespace OrbPuzzle

/-! ## One tile -/

namespace Tile

/-- The top left corner of a tile's image on a surface of the given side. -/
def corner (tile : Tile) (side : Single) : Point :=
  let back := (-(side * tile.scale)).half
  ⟨side.mulAdd tile.centerX back, side.mulAdd tile.centerY back⟩

/-- How much a tile's image of the given width is stretched on a surface of the given side. -/
def stretch (tile : Tile) (side natural : Single) : Single := side * tile.scale / natural

/-- A tile as a drawing: a block with its image in it. -/
def drawing (tile : Tile) (side natural : Single) : Drawing :=
  .guarded (.seq (.translate (tile.corner side).x (tile.corner side).y)
    (.seq (.scale (tile.stretch side natural) (tile.stretch side natural)) (.draw tile.color)))

/-- The strokes that paint a tile. -/
def strokes (tile : Tile) (side natural : Single) : List Stroke :=
  [.save,
    .translate (tile.corner side).x (tile.corner side).y,
    .scale (tile.stretch side natural) (tile.stretch side natural),
    .draw tile.color,
    .restore]

theorem strokes_drawing (tile : Tile) (side natural : Single) :
    (tile.drawing side natural).strokes = tile.strokes side natural := rfl

/-- The image of a tile in a frame: none, if the size of its colour's image is not known or the
image has no width. -/
def sprite? (tile : Tile) (layout : Layout) (imageSizes : Palette (Option Point)) :
    Option SpriteDraw := do
  let imageSize ← imageSizes.get tile.color
  if imageSize.x ≤ .zero false then none
  else
    let ratio := tile.stretch layout.size imageSize.x
    -- placed by a surface at rest, whose origin is zero and whose scale is one
    some ⟨tile.color, .zero + .one * tile.corner layout.size, .one * ⟨ratio, ratio⟩⟩

end Tile

/-! ## Any surface -/

namespace Surface

variable {σ τ : Type} [Surface σ] [Surface τ]

/-- The strokes that paint a tile on a surface: none, if the tile's image is not loaded or has no
width. -/
def tileStrokes (surface : σ) (tile : Tile) : List Stroke :=
  match imageWidth surface tile.color with
  | none => []
  | some natural => if natural ≤ .zero false then [] else tile.strokes (size surface) natural

/-- The strokes that paint tiles, one after the other. Which they are is decided for each tile on
the surface as the tiles before have left it. -/
def strokesFrom (surface : σ) : List Tile → List Stroke
  | [] => []
  | tile :: rest =>
    tileStrokes surface tile ++ strokesFrom (applyAll surface (tileStrokes surface tile)) rest

/-- The strokes of a frame. -/
def frameStrokes (surface : σ) (g : Grid) : List Stroke :=
  .clear :: strokesFrom (apply surface .clear) g.tiles.toList

theorem paintTile_eq (surface : σ) (tile : Tile) :
    paintTile surface tile = applyAll surface (tileStrokes surface tile) := by
  unfold paintTile tileStrokes
  cases imageWidth surface tile.color with
  | none => rfl
  | some natural =>
    dsimp only
    split
    · rfl
    · rfl

theorem foldl_paintTile (surface : σ) (tiles : List Tile) :
    tiles.foldl paintTile surface = applyAll surface (strokesFrom surface tiles) := by
  induction tiles generalizing surface with
  | nil => rfl
  | cons tile rest ih => rw [List.foldl_cons, paintTile_eq, ih, strokesFrom, applyAll_append]

/-- Painting a board is making the strokes of its frame. -/
theorem paintGrid_eq (surface : σ) (g : Grid) :
    paintGrid surface g = applyAll surface (frameStrokes surface g) := by
  rw [paintGrid, ← Array.foldl_toList, foldl_paintTile, frameStrokes, applyAll_cons]

/-! ## Surfaces that answer alike -/

/-- Two surfaces give the same answers about their size and their images. -/
def AnswerAlike (surface : σ) (other : τ) : Prop :=
  size surface = size other ∧ imageWidth surface = imageWidth other

theorem AnswerAlike.tileStrokes_eq {surface : σ} {other : τ} (h : AnswerAlike surface other)
    (tile : Tile) : tileStrokes surface tile = tileStrokes other tile := by
  unfold tileStrokes
  rw [h.1, h.2]

/-- What every single stroke keeps of two surfaces, any strokes keep. -/
theorem applyAll_related {related : σ → τ → Prop}
    (keeps : ∀ a b stroke, related a b → related (apply a stroke) (apply b stroke))
    {surface : σ} {other : τ} (h : related surface other) (strokes : List Stroke) :
    related (applyAll surface strokes) (applyAll other strokes) := by
  induction strokes generalizing surface other with
  | nil => exact h
  | cons stroke rest ih => exact ih (keeps surface other stroke h)

/-- Surfaces that answer alike, and still do so after every stroke, are given the same strokes. -/
theorem strokesFrom_congr {related : σ → τ → Prop}
    (alike : ∀ a b, related a b → AnswerAlike a b)
    (keeps : ∀ a b stroke, related a b → related (apply a stroke) (apply b stroke))
    {surface : σ} {other : τ} (h : related surface other) (tiles : List Tile) :
    strokesFrom surface tiles = strokesFrom other tiles := by
  induction tiles generalizing surface other with
  | nil => rfl
  | cons tile rest ih =>
    have htile : tileStrokes surface tile = tileStrokes other tile :=
      (alike surface other h).tileStrokes_eq tile
    rw [strokesFrom, strokesFrom, htile, ih (applyAll_related keeps h _)]

theorem frameStrokes_congr (related : σ → τ → Prop)
    (alike : ∀ a b, related a b → AnswerAlike a b)
    (keeps : ∀ a b stroke, related a b → related (apply a stroke) (apply b stroke))
    {surface : σ} {other : τ} (h : related surface other) (g : Grid) :
    frameStrokes surface g = frameStrokes other g := by
  rw [frameStrokes, frameStrokes, strokesFrom_congr alike keeps (keeps _ _ .clear h)]

end Surface

open Surface (AnswerAlike apply applyAll paintGrid paintTile strokesFrom frameStrokes)

/-! ## Watched surfaces -/

/-- A surface, and the strokes it was given since it is watched. -/
structure Watched (σ : Type) where
  surface : σ
  strokes : List Stroke := []

namespace Watched

variable {σ : Type} [Surface σ]

instance : Surface (Watched σ) where
  size w := Surface.size w.surface
  imageWidth w := Surface.imageWidth w.surface
  apply w stroke := ⟨apply w.surface stroke, w.strokes ++ [stroke]⟩

theorem applyAll_eq (w : Watched σ) (strokes : List Stroke) :
    applyAll w strokes = ⟨applyAll w.surface strokes, w.strokes ++ strokes⟩ := by
  induction strokes generalizing w with
  | nil =>
    rw [List.append_nil]
    rfl
  | cons stroke rest ih =>
    rw [Surface.applyAll_cons, Surface.applyAll_cons, ih, List.append_cons w.strokes stroke rest]
    rfl

/-- Watching a surface does not change what is painted on it, and sees the strokes of a frame. -/
theorem paintGrid_eq (w : Watched σ) (g : Grid) :
    paintGrid w g = ⟨paintGrid w.surface g, w.strokes ++ frameStrokes w.surface g⟩ := by
  have hstrokes : frameStrokes w g = frameStrokes w.surface g := by
    refine Surface.frameStrokes_congr (fun a b => a.surface = b) ?_ ?_ rfl g
    · rintro a _ rfl
      exact ⟨rfl, rfl⟩
    · rintro a _ stroke rfl
      rfl
  rw [Surface.paintGrid_eq, hstrokes, applyAll_eq, Surface.paintGrid_eq]

end Watched

/-! ## Sprite surfaces -/

namespace SpriteSurface

theorem answers_stroke (s : SpriteSurface) (stroke : Stroke) :
    (s.stroke stroke).layout = s.layout ∧ (s.stroke stroke).imageSizes = s.imageSizes := by
  cases stroke with
  | restore =>
    unfold SpriteSurface.stroke
    cases s.saved with
    | nil => exact ⟨rfl, rfl⟩
    | cons placement saved => exact ⟨rfl, rfl⟩
  | clear | save | translate x y | scale x y | draw color => exact ⟨rfl, rfl⟩

/-- On a surface at rest, painting a tile adds its image and changes nothing else. -/
theorem paintTile_eq {s : SpriteSurface} (hrest : s.current = {}) (tile : Tile) :
    paintTile s tile = { s with
      draws := s.draws ++ (tile.sprite? s.layout s.imageSizes).toArray } := by
  have hwidth : Surface.imageWidth s tile.color = (s.imageSizes.get tile.color).map (·.x) := rfl
  rw [Surface.paintTile_eq, Surface.tileStrokes, Tile.sprite?, hwidth]
  cases s.imageSizes.get tile.color with
  | none => exact (congrArg (fun draws => { s with draws }) Array.append_empty).symm
  | some imageSize =>
    simp only [Option.map_some, Option.bind_eq_bind, Option.bind_some]
    split
    · exact (congrArg (fun draws => { s with draws }) Array.append_empty).symm
    · -- the tile is a block, so the placement at rest is what it starts from and what it leaves
      rw [← Tile.strokes_drawing, Drawing.applyAll_strokes, paint_eq, hrest]
      rfl

/-- On a surface at rest, painting tiles adds their images in order. -/
theorem foldl_paintTile {s : SpriteSurface} (hrest : s.current = {}) (tiles : List Tile) :
    tiles.foldl paintTile s = { s with
      draws := s.draws ++ (tiles.filterMap (·.sprite? s.layout s.imageSizes)).toArray } := by
  induction tiles generalizing s with
  | nil => exact (congrArg (fun draws => { s with draws }) Array.append_empty).symm
  | cons tile rest ih =>
    rw [List.foldl_cons, paintTile_eq hrest]
    refine (ih ?_).trans ?_
    · exact hrest
    · cases hsprite : tile.sprite? s.layout s.imageSizes with
      | none => simp [hsprite]
      | some draw => simp [hsprite]

/-- A painted surface holds the images of the tiles in order, and is at rest: its layout and the
sizes of its images are all that is left of what it was before. -/
theorem paintGrid_eq (s : SpriteSurface) (g : Grid) :
    paintGrid s g = {
      layout := s.layout
      imageSizes := s.imageSizes
      current := {}
      saved := []
      draws := g.tiles.filterMap (·.sprite? s.layout s.imageSizes) } := by
  let cleared : SpriteSurface := { layout := s.layout, imageSizes := s.imageSizes }
  have hpainted := foldl_paintTile (s := cleared) rfl g.tiles.toList
  have hclear : apply s .clear = cleared := rfl
  rw [paintGrid, ← Array.foldl_toList, hclear, hpainted, Array.empty_append,
    ← Array.toList_filterMap]

end SpriteSurface

/-! ## Recorders -/

namespace Recorder

theorem toList_strokes_applyAll (r : Recorder) (strokes : List Stroke) :
    (applyAll r strokes).strokes.toList = r.strokes.toList ++ strokes := by
  induction strokes generalizing r with
  | nil => exact (List.append_nil _).symm
  | cons stroke rest ih =>
    rw [Surface.applyAll_cons, ih]
    show (r.strokes.push stroke).toList ++ rest = r.strokes.toList ++ stroke :: rest
    rw [Array.toList_push, List.append_assoc, List.singleton_append]

/-- A recorder like a sprite surface is given the strokes that the sprite surface is given. -/
theorem strokes_paintGrid_like (s : SpriteSurface) (g : Grid) :
    (paintGrid (like s) g).strokes.toList = frameStrokes s g := by
  have hstrokes : frameStrokes (like s) g = frameStrokes s g := by
    refine Surface.frameStrokes_congr (σ := Recorder) (τ := SpriteSurface) AnswerAlike
      (fun _ _ h => h) ?_ ⟨rfl, rfl⟩ g
    rintro r t stroke ⟨hsize, hwidth⟩
    obtain ⟨hlayout, hsizes⟩ := t.answers_stroke stroke
    refine ⟨hsize.trans (congrArg Layout.size hlayout.symm), hwidth.trans ?_⟩
    exact congrArg (fun sizes color => (sizes.get color).map Point.x) hsizes.symm
  rw [Surface.paintGrid_eq, hstrokes, toList_strokes_applyAll]
  rfl

end Recorder

/-! ## The frame -/

/-- What painting a board does. A sprite surface in any state, with any draws, any placement and any
saves that were never restored, keeps its layout and the sizes of its images. It is left at rest,
with one draw for each tile whose colour has an image of known size that has a width, in storage
order. So two surfaces of the same layout and image sizes end with the same draws. On a surface of
any kind the strokes are one clear, and then the five of each tile whose image is loaded and has a
width. The strokes that a recorder like a sprite surface takes down, made on the sprite surface,
paint the same. -/
theorem frame_of_grid (g : Grid) :
    (∀ s : SpriteSurface, paintGrid s g = {
      layout := s.layout
      imageSizes := s.imageSizes
      current := {}
      saved := []
      draws := g.tiles.filterMap (·.sprite? s.layout s.imageSizes) }) ∧
    (∀ s t : SpriteSurface, s.layout = t.layout → s.imageSizes = t.imageSizes →
      (paintGrid s g).draws = (paintGrid t g).draws) ∧
    (∀ (σ : Type) [Surface σ] (surface : σ),
      paintGrid (⟨surface, []⟩ : Watched σ) g =
        ⟨paintGrid surface g, .clear :: strokesFrom (apply surface .clear) g.tiles.toList⟩) ∧
    ∀ s : SpriteSurface,
      applyAll s (paintGrid (Recorder.like s) g).strokes.toList = paintGrid s g := by
  refine ⟨fun s => s.paintGrid_eq g, ?_, ?_, ?_⟩
  · intro s t hlayout hsizes
    rw [SpriteSurface.paintGrid_eq, SpriteSurface.paintGrid_eq, hlayout, hsizes]
  · intro σ _ surface
    exact Watched.paintGrid_eq ⟨surface, []⟩ g
  · intro s
    rw [Recorder.strokes_paintGrid_like, ← Surface.paintGrid_eq]

/-- A board with two red orbs on it, a blue and a green one. -/
def patchyGrid : Grid where
  size := 2
  tiles := Grid.tabulateTiles 2 fun p =>
    if p.col = p.row then .red else if p.col = 0 then .blue else .green
  nextId := 4
  tiles_size := Grid.size_tabulateTiles 2 _

/-- A surface that was left in the middle of a drawing. It knows the size of the red image, and of a
green one that has no width. -/
def leftSurface : SpriteSurface where
  layout := .fit (.ofNat 200) (.ofNat 100)
  imageSizes := ⟨some ⟨.ofNat 64, .ofNat 64⟩, none, some ⟨.zero false, .ofNat 64⟩⟩
  current := ⟨⟨.ofNat 7, .ofNat 7⟩, ⟨.ofNat 2, .ofNat 2⟩⟩
  saved := [{}, ⟨⟨.ofNat 3, .ofNat 3⟩, .one⟩]
  draws := #[⟨.green, .zero, .one⟩]

/-- On this surface the board is painted as on a new one: the two red orbs are drawn. -/
theorem frame_of_grid_leftSurface :
    (paintGrid leftSurface patchyGrid).draws =
        (paintGrid { leftSurface with current := {}, saved := [], draws := #[] } patchyGrid).draws ∧
      (paintGrid leftSurface patchyGrid).draws.map (·.color) = #[.red, .red] :=
  ⟨(frame_of_grid patchyGrid).2.1 _ _ rfl rfl, by decide +kernel⟩

end OrbPuzzle
