import PRShooter.ExactReal
import Mathlib.Data.EReal.Basic

/-!
# `double` with infinities and NaN

The arithmetic of IEEE 754 over exact real numbers: a value is a real number, an infinity or NaN,
operations on real numbers are not rounded, and every comparison with NaN is false. Zeros have no
sign.
-/

namespace PRShooter

/-- A value of type `double`. -/
inductive Double where
  | nan
  | inf (negative : Bool)
  | finite (x : ℝ)

noncomputable section

namespace Double

def add : Double → Double → Double
  | finite x, finite y => finite (x + y)
  | inf s, finite _ => inf s
  | finite _, inf s => inf s
  | inf s, inf t => if s = t then inf s else nan
  | _, _ => nan

def neg : Double → Double
  | finite x => finite (-x)
  | inf s => inf !s
  | nan => nan

def mul : Double → Double → Double
  | finite x, finite y => finite (x * y)
  | inf s, finite x => if x = 0 then nan else inf (s ^^ decide (x < 0))
  | finite x, inf s => if x = 0 then nan else inf (s ^^ decide (x < 0))
  | inf s, inf t => inf (s ^^ t)
  | _, _ => nan

def div : Double → Double → Double
  | finite x, finite y =>
    if y = 0 then if x = 0 then nan else inf (decide (x < 0)) else finite (x / y)
  | inf s, finite x => inf (s ^^ decide (x < 0))
  | finite _, inf _ => finite 0
  | _, _ => nan

/-- The place of a value in the order. -/
def toEReal : Double → Option EReal
  | finite x => some x
  | inf true => some ⊥
  | inf false => some ⊤
  | nan => none

instance : Zero Double := ⟨finite 0⟩
instance : One Double := ⟨finite 1⟩
instance : NatCast Double := ⟨fun n => finite n⟩
instance : IntCast Double := ⟨fun n => finite n⟩
instance : OfScientific Double := ⟨fun m s e => finite (OfScientific.ofScientific m s e)⟩
instance : Add Double := ⟨add⟩
instance : Neg Double := ⟨neg⟩
instance : Sub Double := ⟨fun a b => a + -b⟩
instance : Mul Double := ⟨mul⟩
instance : Div Double := ⟨div⟩
instance : LE Double := ⟨fun a b => ∃ x ∈ a.toEReal, ∃ y ∈ b.toEReal, x ≤ y⟩
instance : LT Double := ⟨fun a b => ∃ x ∈ a.toEReal, ∃ y ∈ b.toEReal, x < y⟩
instance : DecidableLE Double := fun _ _ => Classical.propDecidable _
instance : DecidableLT Double := fun _ _ => Classical.propDecidable _

/-- The square root; that of a negative number is NaN. -/
instance : HasSqrt Double where
  sqrt
    | finite x => if x < 0 then nan else finite (Real.sqrt x)
    | inf false => inf false
    | _ => nan

instance : Trig Double Double where
  cos
    | finite x => finite (Real.cos x)
    | _ => nan
  sin
    | finite x => finite (Real.sin x)
    | _ => nan

/-- The value of an IEEE 754 word with `e` exponent bits and `f` fraction bits. -/
def ofIeee (e f w : ℕ) : Double :=
  if w / 2 ^ f % 2 ^ e = 2 ^ e - 1 then
    if w % 2 ^ f = 0 then inf (decide (w / 2 ^ (e + f) % 2 = 1)) else nan
  else finite (ieeeValue e f w)

instance : OfWord 64 Double := ⟨fun w => ofIeee 11 52 w.toNat⟩
instance : OfWord 32 Double := ⟨fun w => ofIeee 8 23 w.toNat⟩

@[simp] theorem finite_add (x y : ℝ) : finite x + finite y = finite (x + y) := rfl
@[simp] theorem finite_mul (x y : ℝ) : finite x * finite y = finite (x * y) := rfl
@[simp] theorem inf_add_inf (s : Bool) : inf s + inf s = inf s := if_pos rfl

@[simp] theorem inf_mul_inf (s : Bool) : inf s * inf s = inf false := by
  show inf (s ^^ s) = _
  rw [Bool.xor_self]

theorem le_def (a b : Double) : a ≤ b ↔ ∃ x ∈ a.toEReal, ∃ y ∈ b.toEReal, x ≤ y := Iff.rfl

@[simp] theorem finite_le (x y : ℝ) : finite x ≤ finite y ↔ x ≤ y := by
  simp [le_def, toEReal]

theorem nan_le (a : Double) : ¬ nan ≤ a := by
  rintro ⟨x, hx, -⟩
  simp [toEReal] at hx

theorem inf_le_finite (x : ℝ) : ¬ inf false ≤ finite x := by
  simp [le_def, toEReal]

end Double

end

end PRShooter
