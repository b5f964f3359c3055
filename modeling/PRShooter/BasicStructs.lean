import Mathlib.Data.Nat.Cast.Defs
import Mathlib.Data.Int.Cast.Defs

/-!
# The shared structures of the host

`Host/basic_structs.hpp`. The type `D` stands for `double` and `F` for `float`: every function of
the host is written over the operations it uses, so that the same definitions are read over exact
real numbers, over machine words, or over any other arithmetic.
-/

namespace PRShooter

/-- `sqrt` of `<cmath>`. -/
class HasSqrt (D : Type) where
  sqrt : D → D

/-- `cos` and `sin` of an orientation angle. -/
class Trig (F D : Type) where
  cos : F → D
  sin : F → D

/-- `static_cast<int>` of a `double`. -/
class ToInt (D : Type) where
  toInt : D → ℤ

/-- The value of the `w` bits of a `double` or a `float` received from a client. -/
class OfWord (w : ℕ) (D : Type) where
  ofWord : BitVec w → D

/-- The `w` bits of a `double` or a `float` sent to a client. -/
class ToWord (w : ℕ) (D : Type) where
  toWord : D → BitVec w

export HasSqrt (sqrt)
export ToInt (toInt)
export OfWord (ofWord)
export ToWord (toWord)

instance (w : ℕ) : OfWord w (BitVec w) := ⟨id⟩
instance (w : ℕ) : ToWord w (BitVec w) := ⟨id⟩

/-- Type of data sent to and received from a client. -/
inductive DataType where
  | welcomeMessage
  | gameMap
  | gameState
  | spawn
  | shoot
  | changeOrientation
  | changeMovementDirection
  | ping
  | other
  deriving DecidableEq, Repr

namespace DataType

/-- The value of the enumerator. -/
def toNat : DataType → ℕ
  | welcomeMessage => 0
  | gameMap => 1
  | gameState => 2
  | spawn => 10
  | shoot => 11
  | changeOrientation => 12
  | changeMovementDirection => 13
  | ping => 14
  | other => 999

end DataType

/-- A point of the plane, also used as a vector. -/
structure Point (D : Type) where
  x : D
  y : D
  deriving DecidableEq, Repr

namespace Point

variable {D : Type}

instance [Zero D] : Zero (Point D) := ⟨⟨0, 0⟩⟩
instance [Add D] : Add (Point D) := ⟨fun p q => ⟨p.x + q.x, p.y + q.y⟩⟩
instance [Sub D] : Sub (Point D) := ⟨fun p q => ⟨p.x - q.x, p.y - q.y⟩⟩
instance [Mul D] : HMul (Point D) D (Point D) := ⟨fun p c => ⟨p.x * c, p.y * c⟩⟩
instance [Div D] : HDiv (Point D) D (Point D) := ⟨fun p c => ⟨p.x / c, p.y / c⟩⟩

@[simp] theorem zero_x [Zero D] : (0 : Point D).x = 0 := rfl
@[simp] theorem zero_y [Zero D] : (0 : Point D).y = 0 := rfl
@[simp] theorem add_x [Add D] (p q : Point D) : (p + q).x = p.x + q.x := rfl
@[simp] theorem add_y [Add D] (p q : Point D) : (p + q).y = p.y + q.y := rfl
@[simp] theorem sub_x [Sub D] (p q : Point D) : (p - q).x = p.x - q.x := rfl
@[simp] theorem sub_y [Sub D] (p q : Point D) : (p - q).y = p.y - q.y := rfl
@[simp] theorem mul_x [Mul D] (p : Point D) (c : D) : (p * c).x = p.x * c := rfl
@[simp] theorem mul_y [Mul D] (p : Point D) (c : D) : (p * c).y = p.y * c := rfl
@[simp] theorem div_x [Div D] (p : Point D) (c : D) : (p / c).x = p.x / c := rfl
@[simp] theorem div_y [Div D] (p : Point D) (c : D) : (p / c).y = p.y / c := rfl

/-- Two points with the same coordinates are equal. -/
theorem ext' {p q : Point D} (hx : p.x = q.x) (hy : p.y = q.y) : p = q := by
  cases p; cases q; simp_all

end Point

/-- `square` of `Host/collisions.cpp`. -/
def square {D : Type} [Mul D] (x : D) : D := x * x

/-- `Point::length`. -/
def Point.length {D : Type} [Add D] [Mul D] [HasSqrt D] (p : Point D) : D :=
  sqrt (square p.x + square p.y)

/-- Four points in cyclic order. -/
structure Rectangle (D : Type) where
  p0 : Point D
  p1 : Point D
  p2 : Point D
  p3 : Point D
  deriving DecidableEq, Repr

/-- A centre and a radius. -/
structure Circle (D : Type) where
  centre : Point D
  r : D
  deriving DecidableEq, Repr

end PRShooter
