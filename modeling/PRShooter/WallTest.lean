import PRShooter.Border
import PRShooter.TriangleHeight
import Mathlib.Analysis.Convex.Combination
import Mathlib.Topology.Order.IntermediateValue

/-!
# How exact the tests against segments and walls are

The segment test decides contact up to half its tolerance (`circleLineSegmentCollision_exact`).
The wall test misses no disc that reaches the convex quadrilateral, and what it reports of a
rectangle is within the same half tolerance (`checkCollisionRectangle_exact`).
-/

namespace PRShooter

/-! ## The segment -/

/-- The distance of the centre from the closed segment. -/
noncomputable def segmentDistance (c : Circle ℝ) (a b : Point ℝ) : ℝ :=
  Metric.infDist c.centre.toPlane (edgeSet (a, b))

theorem left_mem_edgeSet (a b : Point ℝ) : a.toPlane ∈ edgeSet (a, b) := left_mem_segment ℝ _ _

theorem right_mem_edgeSet (a b : Point ℝ) : b.toPlane ∈ edgeSet (a, b) := right_mem_segment ℝ _ _

/-- The distance from the segment is attained. -/
theorem exists_mem_edgeSet_dist (c : Circle ℝ) (a b : Point ℝ) :
    ∃ z ∈ edgeSet (a, b), dist z c.centre.toPlane = segmentDistance c a b := by
  have hcompact : IsCompact (edgeSet (a, b)) := by
    unfold edgeSet
    rw [segment_eq_image']
    exact isCompact_Icc.image (by fun_prop)
  obtain ⟨z, hz, hdist⟩ :=
    hcompact.exists_infDist_eq_dist ⟨_, left_mem_edgeSet a b⟩ c.centre.toPlane
  exact ⟨z, hz, by rw [dist_comm, segmentDistance, hdist]⟩

theorem segmentDistance_le {c : Circle ℝ} {a b : Point ℝ} {z : ℂ} (hz : z ∈ edgeSet (a, b)) :
    segmentDistance c a b ≤ dist z c.centre.toPlane := by
  rw [dist_comm]
  exact Metric.infDist_le_dist_of_mem hz

/-- The closest point of the line is passed only if it is at most half the tolerance away from a
point of the segment. -/
theorem exists_mem_edgeSet_near {c : Circle ℝ} {a b : Point ℝ}
    (hspan : |distance a (closestOnLine c a b) + distance b (closestOnLine c a b) - distance a b|
      ≤ 0.01) :
    ∃ z ∈ edgeSet (a, b), dist z (closestOnLine c a b).toPlane ≤ 0.005 := by
  rw [closestOnLine_eq] at hspan ⊢
  have hspan' := (abs_le.mp hspan).2
  have hL := distance_nonneg a b
  rcases lt_or_ge (dot c a b) 0 with hneg | h0
  · -- before `a`: the detour is twice the distance from `a`
    have ha : distance a (a.lerp b (dot c a b)) = -dot c a b * distance a b := by
      have hsq : distance a (a.lerp b (dot c a b)) ^ 2 = (-dot c a b * distance a b) ^ 2 := by
        rw [mul_pow, distance_sq, distance_sq]
        unfold Point.lerp
        ring
      exact (sq_eq_sq₀ (distance_nonneg _ _) (by nlinarith)).mp hsq
    refine ⟨_, left_mem_edgeSet a b, ?_⟩
    rw [dist_toPlane]
    rw [distance_right_lerp a b (by linarith)] at hspan'
    linarith
  rcases le_or_gt (dot c a b) 1 with h1 | hpast
  · refine ⟨_, mem_edgeSet.mpr ⟨_, ⟨h0, h1⟩, rfl⟩, ?_⟩
    rw [dist_self]
    norm_num
  · -- behind `b`: the detour is twice the distance from `b`
    have hb : distance b (a.lerp b (dot c a b)) = (dot c a b - 1) * distance a b := by
      have hsq : distance b (a.lerp b (dot c a b)) ^ 2
          = ((dot c a b - 1) * distance a b) ^ 2 := by
        rw [mul_pow, distance_sq, distance_sq]
        unfold Point.lerp
        ring
      exact (sq_eq_sq₀ (distance_nonneg _ _) (by nlinarith)).mp hsq
    refine ⟨_, right_mem_edgeSet a b, ?_⟩
    rw [dist_toPlane]
    rw [distance_left_lerp a b h0] at hspan'
    linarith

/-- **No far alarm.** A disc that the test reports is within half the tolerance of the segment. -/
theorem exists_mem_edgeSet_of_collision {c : Circle ℝ} {a b : Point ℝ}
    (h : circleLineSegmentCollision c a b = true) :
    ∃ z ∈ edgeSet (a, b), dist z c.centre.toPlane ≤ c.r + 0.005 := by
  rcases (circleLineSegmentCollision_iff c a b).mp h with hnear | hnear | ⟨hspan, hnear⟩
  · refine ⟨_, left_mem_edgeSet a b, ?_⟩
    rw [dist_toPlane]
    linarith
  · refine ⟨_, right_mem_edgeSet a b, ?_⟩
    rw [dist_toPlane]
    linarith
  · obtain ⟨z, hz, hclosest⟩ := exists_mem_edgeSet_near hspan
    refine ⟨z, hz, ?_⟩
    have htriangle := dist_triangle z (closestOnLine c a b).toPlane c.centre.toPlane
    rw [dist_toPlane] at htriangle
    linarith

/-- **The segment test is exact up to half its tolerance**, whether the ends differ or not: the line
of two equal ends is taken to be their point. -/
theorem circleLineSegmentCollision_exact (c : Circle ℝ) (a b : Point ℝ) :
    (segmentDistance c a b ≤ c.r → circleLineSegmentCollision c a b = true) ∧
      (circleLineSegmentCollision c a b = true → segmentDistance c a b ≤ c.r + 0.005) := by
  constructor
  · intro hnear
    obtain ⟨z, hz, hdist⟩ := exists_mem_edgeSet_dist c a b
    exact circleLineSegmentCollision_of_mem_edgeSet hz (hdist.trans_le hnear)
  · intro hhit
    obtain ⟨z, hz, hdist⟩ := exists_mem_edgeSet_of_collision hhit
    exact (segmentDistance_le hz).trans hdist

/-! ## The wall test, read off -/

/-- The corners in the order of the file. -/
def Rectangle.corner {D : Type} (q : Rectangle D) : Fin 4 → Point D := ![q.p0, q.p1, q.p2, q.p3]

theorem Rectangle.mem_edges {D : Type} {q : Rectangle D} {e : Point D × Point D} :
    e ∈ q.edges ↔ ∃ i, e = (q.corner i, q.corner (i + 1)) := by
  constructor
  · intro he
    simp only [Rectangle.edges, List.mem_cons, List.not_mem_nil, or_false] at he
    rcases he with rfl | rfl | rfl | rfl
    · exact ⟨0, rfl⟩
    · exact ⟨1, rfl⟩
    · exact ⟨2, rfl⟩
    · exact ⟨3, rfl⟩
  · rintro ⟨i, rfl⟩
    fin_cases i <;> simp [Rectangle.edges, Rectangle.corner]

/-- The area of the triangles from the edges to the centre, twice. -/
noncomputable def fanArea (c : Circle ℝ) (q : Rectangle ℝ) : ℝ :=
  |cross q.p0 q.p1 c.centre| + |cross q.p1 q.p2 c.centre| + |cross q.p2 q.p3 c.centre|
    + |cross q.p3 q.p0 c.centre|

/-- The area of the two triangles a diagonal cuts the wall into, twice. -/
noncomputable def wallArea (q : Rectangle ℝ) : ℝ :=
  |cross q.p0 q.p1 q.p2| + |cross q.p2 q.p3 q.p0|

/-- The test, read off: the areas agree up to the tolerance, or an edge is touched. -/
theorem checkCollisionRectangle_iff (c : Circle ℝ) (q : Rectangle ℝ) :
    checkCollisionRectangle c q = true ↔
      |fanArea c q - wallArea q| ≤ 0.02 ∨
        ∃ e ∈ q.edges, circleLineSegmentCollision c e.1 e.2 = true := by
  have hspan : ∀ l s : ℝ, (l / 2 - 0.01 ≤ s / 2 ∧ s / 2 ≤ l / 2 + 0.01) ↔ |s - l| ≤ 0.02 := by
    intro l s
    rw [abs_le]
    constructor <;> rintro ⟨h1, h2⟩ <;> constructor <;> linarith
  have hfan : triangleArea q.p0 q.p1 c.centre + triangleArea q.p1 q.p2 c.centre
      + triangleArea q.p2 q.p3 c.centre + triangleArea q.p3 q.p0 c.centre = fanArea c q / 2 := by
    simp only [triangleArea_eq, fanArea]
    ring
  have hwall : triangleArea q.p0 q.p1 q.p2 + triangleArea q.p2 q.p3 q.p0 = wallArea q / 2 := by
    simp only [triangleArea_eq, wallArea]
    ring
  unfold checkCollisionRectangle
  simp only [hfan, hwall, ← Bool.decide_and, hspan, Rectangle.edges, List.mem_cons,
    List.not_mem_nil, or_false, exists_eq_or_imp, exists_eq_left]
  split_ifs with harea hedges
  · exact iff_of_true rfl (.inl (of_decide_eq_true harea))
  · rw [Bool.or_eq_true] at hedges
    exact iff_of_true rfl (.inr (by tauto))
  · have hfar : ¬ |fanArea c q - wallArea q| ≤ 0.02 := by simpa using harea
    rw [Bool.or_eq_true] at hedges ⊢
    tauto

/-! ## Convex quadrilaterals -/

/-- Twice the signed area is the same whichever corner of the triangle comes first. -/
theorem cross_rotate (a b z : Point ℝ) : cross a b z = cross z a b := by
  unfold cross
  ring

theorem cross_self (a z : Point ℝ) : cross a a z = 0 := by
  unfold cross
  ring

/-- All four turns along the edges go to the side with the sign `o`. -/
def Rectangle.Turns (q : Rectangle ℝ) (o : ℝ) : Prop :=
  ∀ i, 0 < o * cross (q.corner i) (q.corner (i + 1)) (q.corner (i + 2))

/-- The points are the corners of a non-degenerate convex quadrilateral in cyclic order: going
round, every corner turns properly, all to the left or all to the right. -/
def Rectangle.StrictlyConvex (q : Rectangle ℝ) : Prop := q.Turns 1 ∨ q.Turns (-1)

/-- The closed quadrilateral. -/
def Rectangle.region (q : Rectangle ℝ) : Set ℂ :=
  convexHull ℝ (Set.range fun i => (q.corner i).toPlane)

/-- The point of the plane as a point of the model. -/
def ofPlane (z : ℂ) : Point ℝ := ⟨z.re, z.im⟩

@[simp] theorem toPlane_ofPlane (z : ℂ) : (ofPlane z).toPlane = z := rfl

@[simp] theorem ofPlane_toPlane (p : Point ℝ) : ofPlane p.toPlane = p := rfl

theorem convex_halfPlane (o : ℝ) (a b : Point ℝ) : Convex ℝ {z | 0 ≤ o * cross a b (ofPlane z)} := by
  intro z hz w hw s t hs ht hst
  have hcomb : o * cross a b (ofPlane (s • z + t • w))
      = s * (o * cross a b (ofPlane z)) + t * (o * cross a b (ofPlane w)) := by
    have hs' : s = 1 - t := by linarith
    simp only [cross, ofPlane, Complex.add_re, Complex.add_im, Complex.real_smul, Complex.mul_re,
      Complex.mul_im, Complex.ofReal_re, Complex.ofReal_im]
    rw [hs']
    ring
  show 0 ≤ o * cross a b (ofPlane (s • z + t • w))
  rw [hcomb]
  exact add_nonneg (mul_nonneg hs hz) (mul_nonneg ht hw)

/-- A point on the line of two points lies at some parameter. -/
theorem exists_lerp_of_cross_eq_zero {a b p : Point ℝ} (hab : a ≠ b) (h : cross a b p = 0) :
    ∃ t, p = a.lerp b t := by
  have hL : 0 < distance a b ^ 2 := pow_pos (distance_pos hab) 2
  rw [distance_sq] at hL
  refine ⟨((p.x - a.x) * (b.x - a.x) + (p.y - a.y) * (b.y - a.y))
    / ((b.x - a.x) ^ 2 + (b.y - a.y) ^ 2), ?_⟩
  unfold cross at h
  apply Point.ext'
  · unfold Point.lerp
    field_simp
    linear_combination -(b.y - a.y) * h
  · unfold Point.lerp
    field_simp
    linear_combination (b.x - a.x) * h

/-- The corner three further on is the one before. -/
theorem corner_before (i : Fin 4) : i + 3 + 1 = i ∧ i + 3 + 2 = i + 1 := by
  fin_cases i <;> exact ⟨rfl, rfl⟩

section Turns

variable {q : Rectangle ℝ} {o : ℝ}

/-- No corner lies on the outer side of an edge. -/
theorem Rectangle.Turns.corner_nonneg (h : q.Turns o) (i j : Fin 4) :
    0 ≤ o * cross (q.corner i) (q.corner (i + 1)) (q.corner j) := by
  obtain ⟨k, rfl⟩ : ∃ k, j = i + k := ⟨j - i, (add_sub_cancel i j).symm⟩
  match k with
  | 0 => rw [add_zero, cross_left, mul_zero]
  | 1 => rw [cross_right, mul_zero]
  | 2 => exact (h i).le
  | 3 =>
    have hturn := h (i + 3)
    rw [(corner_before i).1, (corner_before i).2, ← cross_rotate] at hturn
    exact hturn.le

/-- Nor does any point of the quadrilateral. -/
theorem Rectangle.Turns.region_nonneg (h : q.Turns o) {z : ℂ} (hz : z ∈ q.region) (i : Fin 4) :
    0 ≤ o * cross (q.corner i) (q.corner (i + 1)) (ofPlane z) := by
  have hsub : q.region ⊆ {z | 0 ≤ o * cross (q.corner i) (q.corner (i + 1)) (ofPlane z)} := by
    refine convexHull_min ?_ (convex_halfPlane o _ _)
    rintro _ ⟨j, rfl⟩
    exact h.corner_nonneg i j
  exact hsub hz

/-- A point on the line of an edge that is on the outer side of neither neighbour is on the edge. -/
theorem Rectangle.Turns.exists_lerp (h : q.Turns o) {p : Point ℝ}
    (hp : ∀ i, 0 ≤ o * cross (q.corner i) (q.corner (i + 1)) p) {i : Fin 4}
    (hline : cross (q.corner i) (q.corner (i + 1)) p = 0) :
    ∃ t, 0 ≤ t ∧ t ≤ 1 ∧ p = (q.corner i).lerp (q.corner (i + 1)) t := by
  have hturn := h i
  have hab : q.corner i ≠ q.corner (i + 1) := by
    intro hsame
    rw [hsame, cross_self, mul_zero] at hturn
    exact lt_irrefl _ hturn
  obtain ⟨t, rfl⟩ := exists_lerp_of_cross_eq_zero hab hline
  have hnext := hp (i + 1)
  have hprev := hp (i + 3)
  have hbefore := h (i + 3)
  rw [(corner_before i).1, cross_lerp, cross_right, mul_zero, zero_add] at hprev
  rw [(corner_before i).1, (corner_before i).2] at hbefore
  rw [cross_lerp, cross_left, mul_zero, add_zero, cross_rotate (q.corner (i + 1)), add_assoc,
    show (1 : Fin 4) + 1 = 2 from rfl] at hnext
  refine ⟨t, ?_, ?_, rfl⟩
  · have hscale : 0 ≤ t * (o * cross (q.corner (i + 3)) (q.corner i) (q.corner (i + 1))) := by
      linarith
    exact nonneg_of_mul_nonneg_left hscale hbefore
  · have hscale : 0 ≤ (1 - t) * (o * cross (q.corner i) (q.corner (i + 1)) (q.corner (i + 2))) := by
      linarith
    exact sub_nonneg.mp (nonneg_of_mul_nonneg_left hscale hturn)

/-- Inside the quadrilateral the two areas agree. -/
theorem Rectangle.Turns.fanArea_eq (h : q.Turns o) (ho : |o| = 1) {c : Circle ℝ}
    (hin : ∀ i, 0 ≤ o * cross (q.corner i) (q.corner (i + 1)) c.centre) :
    fanArea c q = wallArea q := by
  have habs : ∀ x, 0 ≤ o * x → |x| = o * x := by
    intro x hx
    rw [← abs_of_nonneg hx, abs_mul, ho, one_mul]
  have h0 := habs _ (hin 0)
  have h1 := habs _ (hin 1)
  have h2 := habs _ (hin 2)
  have h3 := habs _ (hin 3)
  have h4 := habs _ (h 0).le
  have h5 := habs _ (h 2).le
  change |cross q.p0 q.p1 c.centre| = _ at h0
  change |cross q.p1 q.p2 c.centre| = _ at h1
  change |cross q.p2 q.p3 c.centre| = _ at h2
  change |cross q.p3 q.p0 c.centre| = _ at h3
  change |cross q.p0 q.p1 q.p2| = _ at h4
  change |cross q.p2 q.p3 q.p0| = _ at h5
  unfold fanArea wallArea
  rw [h0, h1, h2, h3, h4, h5]
  unfold Rectangle.corner
  simp [cross]
  ring

/-- **No miss.** A disc that reaches the quadrilateral is found: its centre is inside, or on the way
there from the point it reaches it passes an edge. -/
theorem Rectangle.Turns.collision_of_near (h : q.Turns o) (ho : |o| = 1) {c : Circle ℝ} {z : ℂ}
    (hz : z ∈ q.region) (hnear : dist z c.centre.toPlane ≤ c.r) :
    checkCollisionRectangle c q = true := by
  rw [checkCollisionRectangle_iff]
  by_cases hin : ∀ i, 0 ≤ o * cross (q.corner i) (q.corner (i + 1)) c.centre
  · left
    rw [h.fanArea_eq ho hin, sub_self, abs_zero]
    norm_num
  right
  obtain ⟨j, hj⟩ := not_forall.mp hin
  have hsplit : ∀ i t, o * cross (q.corner i) (q.corner (i + 1)) ((ofPlane z).lerp c.centre t)
      = (1 - t) * (o * cross (q.corner i) (q.corner (i + 1)) (ofPlane z))
        + t * (o * cross (q.corner i) (q.corner (i + 1)) c.centre) := by
    intro i t
    rw [cross_lerp]
    ring
  obtain ⟨t, ⟨ht0, ht1⟩, hall, i, hzero⟩ := ConvexRegion.exists_first_zero
    (f := fun i t => o * cross (q.corner i) (q.corner (i + 1)) ((ofPlane z).lerp c.centre t))
    (j := j)
    (fun i => by simp only [hsplit]; fun_prop)
    (fun i => by simpa [hsplit] using h.region_nonneg hz i)
    (by simpa [hsplit] using hj)
  have ho' : o ≠ 0 := by
    rintro rfl
    norm_num at ho
  obtain ⟨s, hs0, hs1, hedge⟩ :=
    h.exists_lerp hall ((mul_eq_zero.mp hzero).resolve_left ho')
  refine ⟨_, Rectangle.mem_edges.mpr ⟨i, rfl⟩, circleLineSegmentCollision_of_near hs0 hs1 ?_⟩
  rw [← hedge, distance_comm, distance_right_lerp _ _ ht1]
  rw [← toPlane_ofPlane z, dist_toPlane] at hnear
  nlinarith [distance_nonneg (ofPlane z) c.centre]

end Turns

/-! ## Right-angled walls -/

/-- The wall is a rectangle, in any position: opposite edges are equal, and two neighbours are
orthogonal. -/
def Rectangle.RightAngled (q : Rectangle ℝ) : Prop :=
  (q.p2.x = q.p1.x + (q.p3.x - q.p0.x) ∧ q.p2.y = q.p1.y + (q.p3.y - q.p0.y)) ∧
    (q.p1.x - q.p0.x) * (q.p3.x - q.p0.x) + (q.p1.y - q.p0.y) * (q.p3.y - q.p0.y) = 0

/-- The point with the coordinates `s` and `t` along the two edges at the first corner. -/
def Rectangle.inner (q : Rectangle ℝ) (s t : ℝ) : Point ℝ where
  x := q.p0.x + s * (q.p1.x - q.p0.x) + t * (q.p3.x - q.p0.x)
  y := q.p0.y + s * (q.p1.y - q.p0.y) + t * (q.p3.y - q.p0.y)

theorem Rectangle.corner_mem_region (q : Rectangle ℝ) (i : Fin 4) :
    (q.corner i).toPlane ∈ q.region :=
  subset_convexHull ℝ _ ⟨i, rfl⟩

theorem Rectangle.lerp_mem_region {q : Rectangle ℝ} {a b : Point ℝ} (ha : a.toPlane ∈ q.region)
    (hb : b.toPlane ∈ q.region) {t : ℝ} (ht : t ∈ Set.Icc (0 : ℝ) 1) :
    (a.lerp b t).toPlane ∈ q.region := by
  rw [toPlane_lerp]
  exact (convex_convexHull ℝ _).add_smul_sub_mem ha hb ht

theorem Rectangle.edgeSet_subset_region {q : Rectangle ℝ} {e : Point ℝ × Point ℝ}
    (he : e ∈ q.edges) : edgeSet e ⊆ q.region := by
  obtain ⟨i, rfl⟩ := Rectangle.mem_edges.mp he
  intro z hz
  obtain ⟨t, ht, rfl⟩ := mem_edgeSet.mp hz
  exact lerp_mem_region (q.corner_mem_region i) (q.corner_mem_region (i + 1)) ht

/-- The part of a coordinate that lies outside of the unit interval. -/
theorem exists_clamp (s : ℝ) : ∃ s' ∈ Set.Icc (0 : ℝ) 1, |s| + |1 - s| = 1 + 2 * |s' - s| := by
  rcases lt_or_ge s 0 with hneg | h0
  · refine ⟨0, by norm_num, ?_⟩
    rw [abs_of_neg hneg, abs_of_pos (by linarith), abs_of_pos (by linarith)]
    ring
  rcases le_or_gt s 1 with h1 | hpast
  · refine ⟨s, ⟨h0, h1⟩, ?_⟩
    rw [abs_of_nonneg h0, abs_of_nonneg (by linarith), sub_self, abs_zero]
    ring
  · refine ⟨1, by norm_num, ?_⟩
    rw [abs_of_nonneg h0, abs_of_neg (by linarith)]
    ring

namespace Rectangle.RightAngled

variable {q : Rectangle ℝ}

theorem inner_mem_region (h : q.RightAngled) {s t : ℝ} (hs : s ∈ Set.Icc (0 : ℝ) 1)
    (ht : t ∈ Set.Icc (0 : ℝ) 1) : (q.inner s t).toPlane ∈ q.region := by
  have hbottom := lerp_mem_region (q.corner_mem_region 0) (q.corner_mem_region 1) hs
  have htop := lerp_mem_region (q.corner_mem_region 3) (q.corner_mem_region 2) hs
  have hmem := lerp_mem_region hbottom htop ht
  have heq : ((q.corner 0).lerp (q.corner 1) s).lerp ((q.corner 3).lerp (q.corner 2) s) t
      = q.inner s t := by
    show (q.p0.lerp q.p1 s).lerp (q.p3.lerp q.p2 s) t = q.inner s t
    simp only [Point.lerp, Rectangle.inner, h.1.1, h.1.2]
    apply Point.ext' <;> ring
  rwa [heq] at hmem

/-- The area of a rectangle is the product of its sides. -/
theorem abs_cross (h : q.RightAngled) :
    |cross q.p0 q.p1 q.p3| = distance q.p0 q.p1 * distance q.p0 q.p3 := by
  have hsq : |cross q.p0 q.p1 q.p3| ^ 2 = (distance q.p0 q.p1 * distance q.p0 q.p3) ^ 2 := by
    rw [sq_abs, mul_pow, distance_sq, distance_sq]
    unfold cross
    linear_combination -((q.p1.x - q.p0.x) * (q.p3.x - q.p0.x)
      + (q.p1.y - q.p0.y) * (q.p3.y - q.p0.y)) * h.2
  exact (sq_eq_sq₀ (abs_nonneg _) (mul_nonneg (distance_nonneg _ _) (distance_nonneg _ _))).mp hsq

/-- Every point of the plane has coordinates along the two edges. -/
theorem exists_inner (hD : cross q.p0 q.p1 q.p3 ≠ 0) (p : Point ℝ) : ∃ s t, p = q.inner s t := by
  refine ⟨cross q.p0 p q.p3 / cross q.p0 q.p1 q.p3, cross q.p0 q.p1 p / cross q.p0 q.p1 q.p3, ?_⟩
  apply Point.ext'
  · unfold Rectangle.inner
    field_simp
    unfold cross
    ring
  · unfold Rectangle.inner
    field_simp
    unfold cross
    ring

/-- The areas the test compares, in the coordinates of the centre. -/
theorem fanArea_inner (h : q.RightAngled) {c : Circle ℝ} {s t : ℝ} (hc : c.centre = q.inner s t) :
    fanArea c q = |cross q.p0 q.p1 q.p3| * ((|s| + |1 - s|) + (|t| + |1 - t|)) := by
  have h0 : cross q.p0 q.p1 (q.inner s t) = cross q.p0 q.p1 q.p3 * t := by
    simp only [cross, Rectangle.inner]
    ring
  have h1 : cross q.p1 q.p2 (q.inner s t) = cross q.p0 q.p1 q.p3 * (1 - s) := by
    simp only [cross, Rectangle.inner, h.1.1, h.1.2]
    ring
  have h2 : cross q.p2 q.p3 (q.inner s t) = cross q.p0 q.p1 q.p3 * (1 - t) := by
    simp only [cross, Rectangle.inner, h.1.1, h.1.2]
    ring
  have h3 : cross q.p3 q.p0 (q.inner s t) = cross q.p0 q.p1 q.p3 * s := by
    simp only [cross, Rectangle.inner]
    ring
  unfold fanArea
  rw [hc, h0, h1, h2, h3, abs_mul, abs_mul, abs_mul, abs_mul]
  ring

theorem wallArea_eq (h : q.RightAngled) : wallArea q = |cross q.p0 q.p1 q.p3| * 2 := by
  have h0 : cross q.p0 q.p1 q.p2 = cross q.p0 q.p1 q.p3 := by
    simp only [cross, h.1.1, h.1.2]
    ring
  have h1 : cross q.p2 q.p3 q.p0 = cross q.p0 q.p1 q.p3 := by
    simp only [cross, h.1.1, h.1.2]
    ring
  unfold wallArea
  rw [h0, h1]
  ring

theorem distance_inner_le (h : q.RightAngled) (s t s' t' : ℝ) :
    distance (q.inner s' t') (q.inner s t)
      ≤ |s' - s| * distance q.p0 q.p1 + |t' - t| * distance q.p0 q.p3 := by
  have hs := mul_nonneg (abs_nonneg (s' - s)) (distance_nonneg q.p0 q.p1)
  have ht := mul_nonneg (abs_nonneg (t' - t)) (distance_nonneg q.p0 q.p3)
  refine abs_le_of_sq_le_sq' ?_ (add_nonneg hs ht) |>.2
  -- the edges are orthogonal
  have hpythagoras : distance (q.inner s' t') (q.inner s t) ^ 2
      = (|s' - s| * distance q.p0 q.p1) ^ 2 + (|t' - t| * distance q.p0 q.p3) ^ 2 := by
    rw [mul_pow, mul_pow, sq_abs, sq_abs, distance_sq, distance_sq, distance_sq]
    unfold Rectangle.inner
    linear_combination 2 * (s - s') * (t - t') * h.2
  rw [hpythagoras]
  nlinarith

/-- The area test lets a centre pass that is at most the tolerance away from the rectangle. -/
theorem exists_near_of_area (h : q.RightAngled) (hw : 1 ≤ distance q.p0 q.p1)
    (hh : 1 ≤ distance q.p0 q.p3) {c : Circle ℝ} (harea : |fanArea c q - wallArea q| ≤ 0.02) :
    ∃ z ∈ q.region, dist z c.centre.toPlane ≤ 0.01 := by
  have hD : |cross q.p0 q.p1 q.p3| = distance q.p0 q.p1 * distance q.p0 q.p3 := h.abs_cross
  have hD0 : cross q.p0 q.p1 q.p3 ≠ 0 := by
    intro hzero
    rw [hzero, abs_zero] at hD
    nlinarith
  obtain ⟨s, t, hc⟩ := exists_inner hD0 c.centre
  obtain ⟨s', hs', hs⟩ := exists_clamp s
  obtain ⟨t', ht', ht⟩ := exists_clamp t
  refine ⟨_, h.inner_mem_region hs' ht', ?_⟩
  rw [dist_toPlane, hc]
  have harea' := (abs_le.mp harea).2
  rw [h.fanArea_inner hc, h.wallArea_eq, hs, ht, hD] at harea'
  have hgap : (|s' - s| + |t' - t|) * (distance q.p0 q.p1 * distance q.p0 q.p3) ≤ 0.01 := by
    linarith
  have hsgap : |s' - s| * distance q.p0 q.p1
      ≤ |s' - s| * (distance q.p0 q.p1 * distance q.p0 q.p3) :=
    mul_le_mul_of_nonneg_left (by nlinarith) (abs_nonneg _)
  have htgap : |t' - t| * distance q.p0 q.p3
      ≤ |t' - t| * (distance q.p0 q.p1 * distance q.p0 q.p3) :=
    mul_le_mul_of_nonneg_left (by nlinarith) (abs_nonneg _)
  have hdist := h.distance_inner_le s t s' t'
  linarith

/-- **No far alarm.** A disc that the test reports is within half the tolerance of the rectangle. -/
theorem exists_near_of_collision (h : q.RightAngled) (hw : 1 ≤ distance q.p0 q.p1)
    (hh : 1 ≤ distance q.p0 q.p3) {c : Circle ℝ} (hr : 0.01 ≤ c.r)
    (hhit : checkCollisionRectangle c q = true) :
    ∃ z ∈ q.region, dist z c.centre.toPlane ≤ c.r + 0.005 := by
  rcases (checkCollisionRectangle_iff c q).mp hhit with harea | ⟨e, he, hedge⟩
  · obtain ⟨z, hz, hnear⟩ := h.exists_near_of_area hw hh harea
    exact ⟨z, hz, by linarith⟩
  · obtain ⟨z, hz, hnear⟩ := exists_mem_edgeSet_of_collision hedge
    exact ⟨z, Rectangle.edgeSet_subset_region he hz, hnear⟩

end Rectangle.RightAngled

/-- **The wall test is exact up to half its tolerance.** It misses no disc that reaches a convex
quadrilateral, and reports none that stays away from a rectangle. -/
theorem checkCollisionRectangle_exact (c : Circle ℝ) (q : Rectangle ℝ) :
    (q.StrictlyConvex → 0 ≤ c.r → (∃ z ∈ q.region, dist z c.centre.toPlane ≤ c.r) →
        checkCollisionRectangle c q = true) ∧
      (q.RightAngled → 1 ≤ distance q.p0 q.p1 → 1 ≤ distance q.p0 q.p3 → 0.01 ≤ c.r →
        checkCollisionRectangle c q = true →
          ∃ z ∈ q.region, dist z c.centre.toPlane ≤ c.r + 0.005) := by
  constructor
  · rintro (hleft | hright) - ⟨z, hz, hnear⟩
    · exact hleft.collision_of_near abs_one hz hnear
    · exact hright.collision_of_near (by norm_num) hz hnear
  · intro h hw hh hr hhit
    exact h.exists_near_of_collision hw hh hr hhit

/-- A square of side two. -/
def smallSquare : Rectangle ℝ := ⟨⟨0, 0⟩, ⟨(2 : ℕ), 0⟩, ⟨(2 : ℕ), (2 : ℕ)⟩, ⟨0, (2 : ℕ)⟩⟩

theorem rightAngled_smallSquare : smallSquare.RightAngled := by
  norm_num [Rectangle.RightAngled, smallSquare]

theorem strictlyConvex_smallSquare : smallSquare.StrictlyConvex := by
  left
  intro i
  match i with
  | 0 => show 0 < 1 * cross smallSquare.p0 smallSquare.p1 smallSquare.p2; norm_num [cross, smallSquare]
  | 1 => show 0 < 1 * cross smallSquare.p1 smallSquare.p2 smallSquare.p3; norm_num [cross, smallSquare]
  | 2 => show 0 < 1 * cross smallSquare.p2 smallSquare.p3 smallSquare.p0; norm_num [cross, smallSquare]
  | 3 => show 0 < 1 * cross smallSquare.p3 smallSquare.p0 smallSquare.p1; norm_num [cross, smallSquare]

theorem centre_mem_smallSquare : (⟨1, 1⟩ : Point ℝ).toPlane ∈ smallSquare.region := by
  have hin : smallSquare.inner (1 / 2) (1 / 2) = ⟨1, 1⟩ := by
    apply Point.ext' <;> norm_num [Rectangle.inner, smallSquare]
  rw [← hin]
  exact rightAngled_smallSquare.inner_mem_region (by norm_num) (by norm_num)

/-- A disc in the middle of the square is found, and is near it. -/
theorem checkCollisionRectangle_exact_square :
    ∃ z ∈ smallSquare.region, dist z (⟨1, 1⟩ : Point ℝ).toPlane ≤ 1 + 0.005 := by
  have hexact := checkCollisionRectangle_exact ⟨⟨1, 1⟩, 1⟩ smallSquare
  have hsqrt : Real.sqrt 4 = 2 := by
    rw [show (4 : ℝ) = 2 ^ 2 by norm_num, Real.sqrt_sq (by norm_num)]
  have hwidth : 1 ≤ distance smallSquare.p0 smallSquare.p1 := by
    rw [distance_eq]
    norm_num [hsqrt, smallSquare]
  have hheight : 1 ≤ distance smallSquare.p0 smallSquare.p3 := by
    rw [distance_eq]
    norm_num [hsqrt, smallSquare]
  have hhit := hexact.1 strictlyConvex_smallSquare zero_le_one ⟨_, centre_mem_smallSquare, by
    rw [dist_self]
    exact zero_le_one⟩
  exact hexact.2 rightAngled_smallSquare hwidth hheight (by norm_num) hhit

end PRShooter
