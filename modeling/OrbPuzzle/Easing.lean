import OrbPuzzle.Binary.Arithmetic

/-!
# Easing curves

An easing turns the elapsed fraction of a transition into its progress. The two curved easings are
cubics without a constant term, evaluated by Horner's rule with fused steps. Progress is not
clamped: `windupOvershoot` first dips below zero and later passes one before it settles.
-/

namespace OrbPuzzle

/-- The shape of a transition's progress over its span. -/
inductive Easing where
  | linear
  | windupOvershoot
  | easeBoth
deriving DecidableEq, Repr

namespace Easing

instance : Inhabited Easing := ⟨.linear⟩

/-- The cubic `cube * f³ + square * f² + slope * f`. The two inner steps are fused and the last is a
plain product, so three roundings happen in all. -/
def cubic (cube square slope fraction : Double) : Double :=
  ((cube.mulAdd fraction square).mulAdd fraction slope) * fraction

/-- Progress at an elapsed fraction. -/
def progress : Easing → Double → Double
  | .linear => fun fraction => fraction
  | .windupOvershoot =>
    cubic (.ofFraction (-4586466) 1000000) (.ofFraction 6842106 1000000)
      (.ofFraction (-1255640) 1000000)
  | .easeBoth =>
    cubic (.ofFraction (-231584840) 100000000) (.ofFraction 354881290 100000000)
      (.ofFraction (-23296452) 100000000)

end Easing

end OrbPuzzle
