import PRShooter.Heron
import PRShooter.SegmentTest

/-!
# The height of a triangle

`triangleArea` and `triangleHeight` over the reals: Heron's formula never takes the root of a
negative number, and gives half the cross product. So the height is the distance from the line
(`triangle_exact`).
-/

namespace PRShooter

/-- What `triangleArea` takes the root of. -/
def triangleRadicand {D : Type} [Add D] [Sub D] [Mul D] [Div D] [NatCast D] [HasSqrt D]
    (a b c : Point D) : D :=
  let edge1 := distance a b
  let edge2 := distance b c
  let edge3 := distance c a
  let p := (edge1 + edge2 + edge3) / (2 : ℕ)
  p * (p - edge1) * (p - edge2) * (p - edge3)

theorem triangleArea_eq_sqrt {D : Type} [Add D] [Sub D] [Mul D] [Div D] [NatCast D] [HasSqrt D]
    (a b c : Point D) : triangleArea a b c = sqrt (triangleRadicand a b c) := rfl

theorem triangleRadicand_eq (a b c : Point ℝ) :
    triangleRadicand a b c = Heron.radicand a.toPlane b.toPlane c.toPlane := by
  unfold triangleRadicand Heron.radicand Heron.semiperimeter
  simp only [dist_toPlane]

/-- The parallelogram at `a` that reaches to `b` and `c`. -/
theorem gram_toPlane (a b c : Point ℝ) :
    Heron.gram (b.toPlane -ᵥ a.toPlane) (c.toPlane -ᵥ a.toPlane) = cross a b c ^ 2 := by
  unfold Heron.gram cross
  rw [Complex.inner, Complex.sq_norm, Complex.sq_norm, Complex.normSq_apply, Complex.normSq_apply]
  simp only [vsub_eq_sub, Complex.mul_re, Complex.sub_re, Complex.sub_im, Complex.conj_re,
    Complex.conj_im, Point.toPlane_re, Point.toPlane_im]
  ring

/-- Heron's formula gives the area. -/
theorem triangleArea_eq (a b c : Point ℝ) : triangleArea a b c = |cross a b c| / 2 := by
  have hradicand : triangleRadicand a b c = (|cross a b c| / 2) ^ 2 := by
    rw [triangleRadicand_eq, Heron.radicand_eq (V := ℂ), gram_toPlane, div_pow, sq_abs]
    norm_num
  rw [triangleArea_eq_sqrt, hradicand, sqrt_eq, Real.sqrt_sq (by positivity)]

/-- The height is the distance from the line. -/
theorem triangleHeight_eq (a b c : Point ℝ) :
    triangleHeight a b c = |cross b c a| / distance b c := by
  have hturn : cross a b c = cross b c a := by
    unfold cross
    ring
  unfold triangleHeight
  rw [triangleArea_eq, hturn]
  push_cast
  rw [mul_div_cancel₀ _ (two_ne_zero)]

/-- The line through two points, in the plane. -/
def line (a b : Point ℝ) : Set ℂ := affineSpan ℝ {a.toPlane, b.toPlane}

theorem left_mem_line (a b : Point ℝ) : a.toPlane ∈ line a b := left_mem_affineSpan_pair ℝ _ _

theorem right_mem_line (a b : Point ℝ) : b.toPlane ∈ line a b := right_mem_affineSpan_pair ℝ _ _

theorem triangleHeight_eq_infDist (a : Point ℝ) {b c : Point ℝ} (h : b ≠ c) :
    triangleHeight a b c = Metric.infDist a.toPlane (line b c) := by
  have hne : dist b.toPlane c.toPlane ≠ 0 := by
    rw [dist_toPlane]
    exact (distance_pos h).ne'
  unfold triangleHeight line
  rw [Heron.infDist_line a.toPlane hne, triangleArea_eq_sqrt, triangleRadicand_eq, sqrt_eq,
    dist_toPlane]
  push_cast
  rfl

/-- **Heron's formula.** Of any three points the radicand is not negative, and its root is half the
absolute value of the cross product. If `b` and `c` are apart, the height is the distance of `a`
from the line through them, and no longer than either edge at `a`. -/
theorem triangle_exact (a b c : Point ℝ) :
    0 ≤ triangleRadicand a b c ∧ triangleArea a b c = sqrt (triangleRadicand a b c) ∧
      triangleArea a b c = |(b.x - a.x) * (c.y - a.y) - (b.y - a.y) * (c.x - a.x)| / 2 ∧
      (b ≠ c → triangleHeight a b c = Metric.infDist a.toPlane (line b c) ∧
        triangleHeight a b c ≤ distance a b ∧ triangleHeight a b c ≤ distance a c) := by
  refine ⟨?_, triangleArea_eq_sqrt a b c, triangleArea_eq a b c, fun h => ?_⟩
  · rw [triangleRadicand_eq]
    exact Heron.radicand_nonneg _ _ _
  · have hheight := triangleHeight_eq_infDist a h
    refine ⟨hheight, ?_, ?_⟩
    · rw [hheight, ← dist_toPlane]
      exact Metric.infDist_le_dist_of_mem (left_mem_line b c)
    · rw [hheight, ← dist_toPlane]
      exact Metric.infDist_le_dist_of_mem (right_mem_line b c)

/-- The triangle with edges 3, 4 and 5, and the height that falls on the edge of length 3. -/
theorem triangle_exact_right :
    let a : Point ℝ := ⟨0, (4 : ℕ)⟩
    let b : Point ℝ := ⟨0, 0⟩
    let c : Point ℝ := ⟨(3 : ℕ), 0⟩
    triangleArea a b c = (6 : ℕ) ∧ triangleHeight a b c = Metric.infDist a.toPlane (line b c) ∧
      triangleHeight a b c ≤ (4 : ℕ) := by
  intro a b c
  have hne : b ≠ c := by
    intro h
    have hx : (0 : ℝ) = (3 : ℕ) := congrArg Point.x h
    norm_num at hx
  obtain ⟨-, -, harea, hheight⟩ := triangle_exact a b c
  obtain ⟨hline, hleft, -⟩ := hheight hne
  have hedge : distance a b = (4 : ℕ) := by
    refine (sq_eq_sq₀ (distance_nonneg a b) (by positivity)).mp ?_
    rw [distance_sq]
    show ((0 : ℝ) - 0) ^ 2 + (0 - (4 : ℕ)) ^ 2 = (4 : ℕ) ^ 2
    norm_num
  refine ⟨?_, hline, hedge ▸ hleft⟩
  rw [harea]
  show |((0 : ℝ) - 0) * (0 - (4 : ℕ)) - (0 - (4 : ℕ)) * ((3 : ℕ) - 0)| / 2 = (6 : ℕ)
  norm_num

end PRShooter
