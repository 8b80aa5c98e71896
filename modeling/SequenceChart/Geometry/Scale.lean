/-!
# Scales

The numbers of a layout. Lengths and positions have the arithmetic of a `Scale`; the edges of boxes
are positions too, but may also lie before or after all positions. Floating-point numbers serve as
both, with their infinities as the outermost edges.
-/

namespace SequenceChart

class Scale (α : Type) extends Add α, Sub α, Mul α, Div α, OfScientific α where
  natural : Nat → α
  smaller : α → α → α
  larger : α → α → α
  magnitude : α → α
  equal : α → α → Bool
  less : α → α → Bool
  atMost : α → α → Bool

class Edge (ε : Type) where
  first : ε
  last : ε
  smaller : ε → ε → ε
  larger : ε → ε → ε
  less : ε → ε → Bool

/-- Edges that lie at positions, or at a distance from other edges. -/
class Placing (α : Type) (ε : outParam Type) where
  place : α → ε
  before : ε → α → ε
  after : ε → α → ε
  distance : ε → ε → α

export Placing (place)

/-- The smaller of two numbers; one that is not a number gives way. -/
def smallerFloat (left right : Float) : Float :=
  if left.isNaN || right < left then right else left

/-- The larger of two numbers; one that is not a number gives way. -/
def largerFloat (left right : Float) : Float :=
  if left.isNaN || left < right then right else left

instance : Scale Float where
  natural := Float.ofNat
  smaller := smallerFloat
  larger := largerFloat
  magnitude := Float.abs
  equal left right := left == right
  less left right := left < right
  atMost left right := left ≤ right

instance : Edge Float where
  first := -(1.0 / 0.0)
  last := 1.0 / 0.0
  smaller := smallerFloat
  larger := largerFloat
  less left right := left < right

instance : Placing Float Float where
  place position := position
  before edge length := edge - length
  after edge length := edge + length
  distance start stop := stop - start

end SequenceChart
