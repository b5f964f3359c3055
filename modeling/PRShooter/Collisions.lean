import PRShooter.BasicStructs
import Mathlib.Order.Defs.PartialOrder

/-!
# Collision tests

`Host/collisions.cpp`. The overloads of `checkCollision` keep their argument types in their names.
-/

namespace PRShooter

variable {D : Type} [Add D] [Sub D] [Mul D] [Div D] [NatCast D] [OfScientific D] [LT D] [LE D]
  [DecidableLT D] [DecidableLE D] [HasSqrt D]

/-- The distance of two points. -/
def distance (a b : Point D) : D := sqrt (square (b.x - a.x) + square (b.y - a.y))

/-- Two discs overlap by more than the tolerance. -/
def checkCollisionCircle (c1 c2 : Circle D) : Bool :=
  decide (square (c1.centre.x - c2.centre.x) + square (c1.centre.y - c2.centre.y)
    < square (c1.r + c2.r) - 1.0e-10)

/-- The area of a triangle by Heron's formula. -/
def triangleArea (a b c : Point D) : D :=
  let edge1 := distance a b
  let edge2 := distance b c
  let edge3 := distance c a
  let p := (edge1 + edge2 + edge3) / (2 : ℕ)
  sqrt (p * (p - edge1) * (p - edge2) * (p - edge3))

/-- The height falling from `a` onto the segment `b c`. -/
def triangleHeight (a b c : Point D) : D := (2 : ℕ) * triangleArea a b c / distance b c

/-- The point is in the disc or on its circle. -/
def ciclePointCollision (c : Circle D) (a : Point D) : Bool :=
  let disX := c.centre.x - a.x
  let disY := c.centre.y - a.y
  let dist := sqrt (disX * disX + disY * disY)
  decide (dist ≤ c.r)

/-- The point of the line `a b` closest to the centre of `c`. -/
def closestOnLine (c : Circle D) (a b : Point D) : Point D :=
  let lineLength := distance a b
  let dot := ((c.centre.x - a.x) * (b.x - a.x) + (c.centre.y - a.y) * (b.y - a.y))
    / (lineLength * lineLength)
  ⟨a.x + dot * (b.x - a.x), a.y + dot * (b.y - a.y)⟩

/-- The disc touches the segment `a b`. -/
def circleLineSegmentCollision (c : Circle D) (a b : Point D) : Bool :=
  if ciclePointCollision c a || ciclePointCollision c b then true
  else
    let lineLength := distance a b
    let closest := closestOnLine c a b
    let lengthAC := distance a closest
    let lengthBC := distance b closest
    -- the closest point has to lie on the segment, up to the tolerance
    if !(decide (lineLength - 0.01 ≤ lengthAC + lengthBC)
        && decide (lengthAC + lengthBC ≤ lineLength + 0.01)) then false
    else decide (distance closest c.centre ≤ c.r)

/-- The disc touches the rectangle: its centre is inside, or it touches one of the four edges. -/
def checkCollisionRectangle (c : Circle D) (rec : Rectangle D) : Bool :=
  let field1 := triangleArea rec.p0 rec.p1 c.centre + triangleArea rec.p1 rec.p2 c.centre
    + triangleArea rec.p2 rec.p3 c.centre + triangleArea rec.p3 rec.p0 c.centre
  let field2 := triangleArea rec.p0 rec.p1 rec.p2 + triangleArea rec.p2 rec.p3 rec.p0
  if decide (field2 - 0.01 ≤ field1) && decide (field1 ≤ field2 + 0.01) then true
  else if circleLineSegmentCollision c rec.p0 rec.p1
      || circleLineSegmentCollision c rec.p1 rec.p2 then true
  else circleLineSegmentCollision c rec.p2 rec.p3 || circleLineSegmentCollision c rec.p3 rec.p0

/-- The disc touches the segment `P1 P2`. -/
def checkCollisionSegment (c : Circle D) (P1 P2 : Point D) : Bool :=
  circleLineSegmentCollision c P1 P2

end PRShooter
