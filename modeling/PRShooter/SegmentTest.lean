import PRShooter.ExactReal
import Mathlib.Analysis.SpecialFunctions.Pow.NNReal
import Mathlib.Analysis.Complex.Norm
import Mathlib.Analysis.CStarAlgebra.Classes
import Mathlib.Analysis.InnerProductSpace.Basic

/-!
# The segment test over the reals

`circleLineSegmentCollision` never misses a disc that reaches the segment
(`circleLineSegmentCollision_of_near`), and a disc it reports reaches at least the line through
the segment (`abs_cross_le_of_collision`).
-/

namespace PRShooter

/-! ## Distances -/

theorem distance_eq (a b : Point ℝ) :
    distance a b = Real.sqrt ((b.x - a.x) ^ 2 + (b.y - a.y) ^ 2) := by
  unfold distance
  rw [square, square, sqrt_eq, sq, sq]

theorem distance_nonneg (a b : Point ℝ) : 0 ≤ distance a b := by
  rw [distance_eq]
  exact Real.sqrt_nonneg _

theorem distance_sq (a b : Point ℝ) :
    distance a b ^ 2 = (b.x - a.x) ^ 2 + (b.y - a.y) ^ 2 := by
  rw [distance_eq, Real.sq_sqrt (by positivity)]

theorem distance_comm (a b : Point ℝ) : distance a b = distance b a := by
  rw [distance_eq, distance_eq]
  congr 1
  ring

/-- The point as an element of the Euclidean plane. -/
def Point.toPlane (p : Point ℝ) : ℂ := ⟨p.x, p.y⟩

@[simp] theorem Point.toPlane_re (p : Point ℝ) : p.toPlane.re = p.x := rfl
@[simp] theorem Point.toPlane_im (p : Point ℝ) : p.toPlane.im = p.y := rfl

theorem dist_toPlane (a b : Point ℝ) : dist a.toPlane b.toPlane = distance a b := by
  rw [distance_comm, Complex.dist_eq_re_im, distance_eq]
  rfl

theorem distance_triangle (a b c : Point ℝ) : distance a c ≤ distance a b + distance b c := by
  simp only [← dist_toPlane]
  exact dist_triangle _ _ _

theorem distance_pos {a b : Point ℝ} (h : a ≠ b) : 0 < distance a b := by
  rw [distance_eq]
  refine Real.sqrt_pos.mpr ?_
  by_contra hle
  have hx : (b.x - a.x) ^ 2 = 0 := by linarith [sq_nonneg (b.x - a.x), sq_nonneg (b.y - a.y)]
  have hy : (b.y - a.y) ^ 2 = 0 := by linarith [sq_nonneg (b.x - a.x), sq_nonneg (b.y - a.y)]
  have hx' := pow_eq_zero_iff (two_ne_zero) |>.mp hx
  have hy' := pow_eq_zero_iff (two_ne_zero) |>.mp hy
  exact h (Point.ext' (by linarith) (by linarith))

theorem ciclePointCollision_iff (c : Circle ℝ) (a : Point ℝ) :
    ciclePointCollision c a = true ↔ distance a c.centre ≤ c.r := by
  unfold ciclePointCollision
  rw [decide_eq_true_iff, distance_eq, sqrt_eq, sq, sq]

theorem checkCollisionCircle_iff (c1 c2 : Circle ℝ) :
    checkCollisionCircle c1 c2 = true ↔
      distance c1.centre c2.centre ^ 2 < (c1.r + c2.r) ^ 2 - 1.0e-10 := by
  unfold checkCollisionCircle
  rw [decide_eq_true_iff, distance_sq, square, square, square]
  constructor <;> intro h <;> linarith

/-- The point at parameter `t` of the segment `a b`. -/
def Point.lerp (a b : Point ℝ) (t : ℝ) : Point ℝ := ⟨a.x + t * (b.x - a.x), a.y + t * (b.y - a.y)⟩

/-- The parameter of the orthogonal projection of the centre on the line. -/
noncomputable def dot (c : Circle ℝ) (a b : Point ℝ) : ℝ :=
  ((c.centre.x - a.x) * (b.x - a.x) + (c.centre.y - a.y) * (b.y - a.y)) / distance a b ^ 2

theorem closestOnLine_eq (c : Circle ℝ) (a b : Point ℝ) :
    closestOnLine c a b = a.lerp b (dot c a b) := by
  simp only [closestOnLine, Point.lerp, dot, sq]

theorem distance_left_lerp (a b : Point ℝ) {t : ℝ} (ht : 0 ≤ t) :
    distance a (a.lerp b t) = t * distance a b := by
  have hsq : ((a.lerp b t).x - a.x) ^ 2 + ((a.lerp b t).y - a.y) ^ 2
      = t ^ 2 * ((b.x - a.x) ^ 2 + (b.y - a.y) ^ 2) := by
    unfold Point.lerp
    ring
  rw [distance_eq, distance_eq, hsq, Real.sqrt_mul (sq_nonneg t), Real.sqrt_sq ht]

theorem distance_right_lerp (a b : Point ℝ) {t : ℝ} (ht : t ≤ 1) :
    distance b (a.lerp b t) = (1 - t) * distance a b := by
  have hsq : ((a.lerp b t).x - b.x) ^ 2 + ((a.lerp b t).y - b.y) ^ 2
      = (1 - t) ^ 2 * ((b.x - a.x) ^ 2 + (b.y - a.y) ^ 2) := by
    unfold Point.lerp
    ring
  rw [distance_eq, distance_eq, hsq, Real.sqrt_mul (sq_nonneg (1 - t)),
    Real.sqrt_sq (by linarith)]

/-- The test, read off: an end is within the radius, or the closest point of the line is, and lies
between the ends up to the tolerance. -/
theorem circleLineSegmentCollision_iff (c : Circle ℝ) (a b : Point ℝ) :
    circleLineSegmentCollision c a b = true ↔
      distance a c.centre ≤ c.r ∨ distance b c.centre ≤ c.r ∨
        |distance a (closestOnLine c a b) + distance b (closestOnLine c a b) - distance a b| ≤ 0.01
          ∧ distance (closestOnLine c a b) c.centre ≤ c.r := by
  have hspan : ∀ l s : ℝ, (l - 0.01 ≤ s ∧ s ≤ l + 0.01) ↔ |s - l| ≤ 0.01 := fun l s => by
    rw [abs_le]
    constructor <;> rintro ⟨h1, h2⟩ <;> constructor <;> linarith
  unfold circleLineSegmentCollision
  simp only [Bool.or_eq_true, ciclePointCollision_iff, Bool.not_eq_true',
    ← Bool.decide_and, decide_eq_false_iff_not, hspan]
  split_ifs with hends hon
  · exact iff_of_true rfl (by tauto)
  · rw [decide_eq_true_iff]
    tauto
  · tauto

/-! ## No miss -/

/-- The projection in terms of coordinates. -/
theorem dot_mul_distance_sq {c : Circle ℝ} {a b : Point ℝ} (hab : 0 < distance a b) :
    dot c a b * distance a b ^ 2
      = (c.centre.x - a.x) * (b.x - a.x) + (c.centre.y - a.y) * (b.y - a.y) :=
  div_mul_cancel₀ _ (pow_pos hab 2).ne'

/-- The projection of a centre that is nearer to an inner point of the segment than to both of its
ends falls into the segment. -/
theorem dot_mem_Icc {c : Circle ℝ} {a b : Point ℝ} {t : ℝ} (ht0 : 0 ≤ t) (ht1 : t ≤ 1)
    (hab : 0 < distance a b)
    (ha : distance (a.lerp b t) c.centre < distance a c.centre)
    (hb : distance (a.lerp b t) c.centre < distance b c.centre) :
    0 ≤ dot c a b ∧ dot c a b ≤ 1 := by
  have ha2 := (sq_lt_sq₀ (distance_nonneg _ _) (distance_nonneg _ _)).mpr ha
  have hb2 := (sq_lt_sq₀ (distance_nonneg _ _) (distance_nonneg _ _)).mpr hb
  rw [distance_sq, distance_sq] at ha2 hb2
  unfold Point.lerp at ha2 hb2
  have hL : 0 < distance a b ^ 2 := by positivity
  have hLeq := distance_sq a b
  have hdot := dot_mul_distance_sq (c := c) hab
  -- expanding both squares leaves the projection and the length of the segment
  have hleft : 0 < t * (2 * dot c a b - t) * distance a b ^ 2 := by
    have : t * (2 * dot c a b - t) * distance a b ^ 2
        = 2 * t * (dot c a b * distance a b ^ 2) - t ^ 2 * distance a b ^ 2 := by ring
    rw [this, hdot, hLeq]
    linarith
  have hright : 0 < (1 - t) * (1 + t - 2 * dot c a b) * distance a b ^ 2 := by
    have : (1 - t) * (1 + t - 2 * dot c a b) * distance a b ^ 2
        = (1 - t ^ 2) * distance a b ^ 2 - 2 * (1 - t) * (dot c a b * distance a b ^ 2) := by ring
    rw [this, hdot, hLeq]
    linarith
  have hleft' := pos_of_mul_pos_right (pos_of_mul_pos_left hleft hL.le) ht0
  have hright' := pos_of_mul_pos_right (pos_of_mul_pos_left hright hL.le) (sub_nonneg.mpr ht1)
  constructor <;> linarith

/-- No point of the line is nearer to the centre than the projection. -/
theorem distance_closestOnLine_le {c : Circle ℝ} {a b : Point ℝ} (hab : 0 < distance a b) (t : ℝ) :
    distance (closestOnLine c a b) c.centre ≤ distance (a.lerp b t) c.centre := by
  rw [closestOnLine_eq]
  refine (sq_le_sq₀ (distance_nonneg _ _) (distance_nonneg _ _)).mp ?_
  rw [distance_sq, distance_sq]
  unfold Point.lerp
  have hL : 0 < distance a b ^ 2 := by positivity
  have hLeq := distance_sq a b
  have hdot := dot_mul_distance_sq (c := c) hab
  rw [hLeq] at hL hdot
  have hgap : 0 ≤ (t - dot c a b) ^ 2 * ((b.x - a.x) ^ 2 + (b.y - a.y) ^ 2) := by positivity
  have hsplit : (c.centre.x - (a.x + t * (b.x - a.x))) ^ 2
      + (c.centre.y - (a.y + t * (b.y - a.y))) ^ 2
        = (c.centre.x - (a.x + dot c a b * (b.x - a.x))) ^ 2
          + (c.centre.y - (a.y + dot c a b * (b.y - a.y))) ^ 2
          + (t - dot c a b) ^ 2 * ((b.x - a.x) ^ 2 + (b.y - a.y) ^ 2) := by
    linear_combination 2 * (t - dot c a b) * hdot
  linarith

/-- **No miss.** If some point of the segment is within the radius, the test says so. -/
theorem circleLineSegmentCollision_of_near {c : Circle ℝ} {a b : Point ℝ} {t : ℝ} (ht0 : 0 ≤ t)
    (ht1 : t ≤ 1) (hnear : distance (a.lerp b t) c.centre ≤ c.r) :
    circleLineSegmentCollision c a b = true := by
  rw [circleLineSegmentCollision_iff]
  by_cases ha : distance a c.centre ≤ c.r
  · exact .inl ha
  by_cases hb : distance b c.centre ≤ c.r
  · exact .inr (.inl hb)
  rw [not_le] at ha hb
  have hab : 0 < distance a b := by
    refine distance_pos ?_
    rintro rfl
    have hsame : a.lerp a t = a := Point.ext' (by simp [Point.lerp]) (by simp [Point.lerp])
    rw [hsame] at hnear
    linarith
  obtain ⟨h0, h1⟩ := dot_mem_Icc ht0 ht1 hab (hnear.trans_lt ha) (hnear.trans_lt hb)
  refine .inr (.inr ⟨?_, (distance_closestOnLine_le hab t).trans hnear⟩)
  rw [closestOnLine_eq, distance_left_lerp a b h0, distance_right_lerp a b h1, abs_le]
  constructor <;> norm_num <;> linarith

/-! ## No false alarm far from the line -/

/-- Twice the signed area of the triangle `a b z`: positive to the left of `a b`. -/
def cross (a b z : Point ℝ) : ℝ := (b.x - a.x) * (z.y - a.y) - (b.y - a.y) * (z.x - a.x)

theorem cross_lerp (a b z w : Point ℝ) (t : ℝ) :
    cross a b (z.lerp w t) = (1 - t) * cross a b z + t * cross a b w := by
  simp only [cross, Point.lerp]
  ring

@[simp] theorem cross_left (a b : Point ℝ) : cross a b a = 0 := by
  simp [cross]

@[simp] theorem cross_right (a b : Point ℝ) : cross a b b = 0 := by
  unfold cross
  ring

/-- The distance of two points bounds the difference of their distances from the line. -/
theorem abs_cross_sub_le (a b z w : Point ℝ) :
    |cross a b w - cross a b z| ≤ distance a b * distance z w := by
  refine abs_le_of_sq_le_sq ?_ (mul_nonneg (distance_nonneg _ _) (distance_nonneg _ _))
  rw [mul_pow, distance_sq, distance_sq]
  unfold cross
  nlinarith [sq_nonneg ((b.x - a.x) * (w.x - z.x) + (b.y - a.y) * (w.y - z.y))]

/-- A disc that the test reports reaches the line through the segment. -/
theorem abs_cross_le_of_collision {c : Circle ℝ} {a b : Point ℝ}
    (h : circleLineSegmentCollision c a b = true) : |cross a b c.centre| ≤ distance a b * c.r := by
  -- the centre is within the radius of a point of the line: an end, or the closest one
  have hpoint : ∃ z, cross a b z = 0 ∧ distance z c.centre ≤ c.r := by
    rcases (circleLineSegmentCollision_iff c a b).mp h with hnear | hnear | ⟨-, hnear⟩
    · exact ⟨a, cross_left a b, hnear⟩
    · exact ⟨b, cross_right a b, hnear⟩
    · refine ⟨closestOnLine c a b, ?_, hnear⟩
      rw [closestOnLine_eq, cross_lerp, cross_left, cross_right]
      ring
  obtain ⟨z, hz, hnear⟩ := hpoint
  have hgap := abs_cross_sub_le a b z c.centre
  rw [hz, sub_zero] at hgap
  exact hgap.trans (mul_le_mul_of_nonneg_left hnear (distance_nonneg _ _))

end PRShooter
