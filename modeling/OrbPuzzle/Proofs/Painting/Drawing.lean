import OrbPuzzle.Painting.Sprites

/-!
# Nested drawings

A drawing is a tree of strokes. It moves, stretches and draws, one after the other, and it may do so
in blocks after which the placement is put back. Blocks stand in blocks, to any depth. A surface has
one stack of saved placements for all of them, so an inner block pushes and pops on top of what the
outer ones rely on.

What a drawing means can be said without a stack: where the next image goes after it
(`Drawing.placed`), and the images it draws (`Drawing.drawn`). Both look at nothing but the
placement in front of the drawing. `SpriteSurface.paint_eq` says that this is all that painting does.
-/

namespace OrbPuzzle

/-- Strokes in a tree: those of one part after those of another, or in a block. -/
inductive Drawing where
  /-- No strokes at all. -/
  | nothing
  /-- Moves the origin. -/
  | translate (x y : Single)
  /-- Stretches what follows. -/
  | scale (x y : Single)
  /-- Draws the image of an orb. -/
  | draw (color : Color)
  /-- Two drawings, one after the other. -/
  | seq (first second : Drawing)
  /-- A block: the placement is saved before it and restored after it. -/
  | guarded (body : Drawing)
deriving DecidableEq

/-! ## Painting a drawing -/

namespace Surface

variable {σ : Type} [Surface σ]

/-- The surface after a drawing. -/
def paint (surface : σ) : Drawing → σ
  | .nothing => surface
  | .translate x y => apply surface (.translate x y)
  | .scale x y => apply surface (.scale x y)
  | .draw color => apply surface (.draw color)
  | .seq first second => paint (paint surface first) second
  | .guarded body => guarded surface fun surface => paint surface body

@[simp]
theorem applyAll_nil (surface : σ) : applyAll surface [] = surface := rfl

@[simp]
theorem applyAll_cons (surface : σ) (stroke : Stroke) (rest : List Stroke) :
    applyAll surface (stroke :: rest) = applyAll (apply surface stroke) rest := rfl

theorem applyAll_append (surface : σ) (first second : List Stroke) :
    applyAll surface (first ++ second) = applyAll (applyAll surface first) second :=
  List.foldl_append

end Surface

namespace Drawing

/-- The strokes of a drawing, in the order in which they are made. -/
def strokes : Drawing → List Stroke
  | .nothing => []
  | .translate x y => [.translate x y]
  | .scale x y => [.scale x y]
  | .draw color => [.draw color]
  | .seq first second => first.strokes ++ second.strokes
  | .guarded body => .save :: body.strokes ++ [.restore]

/-- A drawing is painted by making its strokes, on every surface. -/
theorem applyAll_strokes {σ : Type} [Surface σ] (surface : σ) (drawing : Drawing) :
    Surface.applyAll surface drawing.strokes = Surface.paint surface drawing := by
  induction drawing generalizing surface with
  | nothing | translate x y | scale x y | draw color => rfl
  | seq first second ihFirst ihSecond =>
    rw [strokes, Surface.applyAll_append, ihFirst, ihSecond, Surface.paint]
  | guarded body ih =>
    rw [strokes, List.cons_append, Surface.applyAll_cons, Surface.applyAll_append, ih,
      Surface.paint, Surface.guarded, Surface.applyAll_cons, Surface.applyAll_nil]

/-! ## What a drawing means -/

/-- Where the next image goes after a drawing. A block leaves no trace. -/
def placed : Drawing → Placement → Placement
  | .nothing, p | .draw _, p | .guarded _, p => p
  | .translate x y, p => { p with origin := p.origin + p.scale * ⟨x, y⟩ }
  | .scale x y, p => { p with scale := p.scale * ⟨x, y⟩ }
  | .seq first second, p => second.placed (first.placed p)

/-- The images that a drawing draws, in order. -/
def drawn : Drawing → Placement → Array SpriteDraw
  | .nothing, _ | .translate _ _, _ | .scale _ _, _ => #[]
  | .draw color, p => #[⟨color, p.origin, p.scale⟩]
  | .seq first second, p => first.drawn p ++ second.drawn (first.placed p)
  | .guarded body, p => body.drawn p

end Drawing

namespace SpriteSurface

open Surface (paint)

/-- Painting a drawing moves the placement and adds the images that are drawn. It changes nothing
else, and what it does depends on the placement alone. -/
theorem paint_eq (s : SpriteSurface) (drawing : Drawing) :
    paint s drawing = { s with
      current := drawing.placed s.current
      draws := s.draws ++ drawing.drawn s.current } := by
  induction drawing generalizing s with
  | nothing | translate x y | scale x y =>
    rw [Drawing.drawn, Array.append_empty]
    rfl
  | draw color =>
    rw [Drawing.drawn, Array.append_singleton]
    rfl
  | seq first second ihFirst ihSecond =>
    rw [paint, ihFirst, ihSecond, Drawing.placed, Drawing.drawn, Array.append_assoc]
  | guarded body ih =>
    -- the body runs on a longer stack and gives it back as it was, so the restore finds the
    -- placement that was saved in front of the body
    rw [paint, Surface.guarded, ih]
    rfl

/-- A block leaves the placement and the whole stack of saved placements as they were, and the
layout and the sizes of the images with them. It only adds images behind those that were drawn
before, and these follow from the placement in front of the block and from the block: neither the
stack below nor what was drawn before has a part in them. -/
theorem paint_guarded (s : SpriteSurface) (body : Drawing) :
    (paint s (.guarded body)).current = s.current ∧
      (paint s (.guarded body)).saved = s.saved ∧
      (paint s (.guarded body)).layout = s.layout ∧
      (paint s (.guarded body)).imageSizes = s.imageSizes ∧
      (paint s (.guarded body)).draws = s.draws ++ body.drawn s.current := by
  rw [paint_eq]
  exact ⟨rfl, rfl, rfl, rfl, rfl⟩

end SpriteSurface

end OrbPuzzle
