import PRShooter.SegmentTest
import PRShooter.TickFrame
import PRShooter.ConvexRegion
import Mathlib.Analysis.Complex.Convex
import Mathlib.Analysis.Complex.ReImTopology

/-!
# The border polygon

The edges the loops over the border visit are those of the closed polygon through the border
points. A border is convex if its edges are the boundary of the convex hull of its points.
-/

namespace PRShooter

/-! ## The closed polygon -/

section Polygon

variable {D : Type}

/-- The edges of the closed polygon: each border point with its cyclic successor. -/
def GameMap.borderPolygon (m : GameMap D) : List (Point D × Point D) :=
  m.borders.zip (m.borders.rotate 1)

theorem zip_append_last (p q : Point D) (ps : List (Point D)) :
    (p :: ps).zip (ps ++ [q]) = (p :: ps).zip ps ++ [((p :: ps).getLast (by simp), q)] := by
  induction ps generalizing p with
  | nil => rfl
  | cons r ps ih =>
    rw [List.cons_append, List.zip_cons_cons, ih r, List.zip_cons_cons, List.cons_append]
    simp

theorem borderEdges_eq {m : GameMap D} (h : m.borders ≠ []) :
    borderEdges m.borders = some m.borderPolygon := by
  unfold GameMap.borderPolygon
  cases hb : m.borders with
  | nil => exact absurd hb h
  | cons p ps =>
    rw [borderEdges, cyclicEdges, List.rotate_cons_succ, List.rotate_zero, zip_append_last]

/-- The four edges of a wall. -/
def Rectangle.edges (r : Rectangle D) : List (Point D × Point D) :=
  [(r.p0, r.p1), (r.p1, r.p2), (r.p2, r.p3), (r.p3, r.p0)]

end Polygon

/-! ## Segments of the plane -/

/-- The points of an edge. -/
def edgeSet (e : Point ℝ × Point ℝ) : Set ℂ := segment ℝ e.1.toPlane e.2.toPlane

theorem toPlane_lerp (a b : Point ℝ) (t : ℝ) :
    (a.lerp b t).toPlane = a.toPlane + t • (b.toPlane - a.toPlane) := by
  apply Complex.ext <;> simp [Point.lerp]

theorem mem_edgeSet {e : Point ℝ × Point ℝ} {z : ℂ} :
    z ∈ edgeSet e ↔ ∃ t ∈ Set.Icc (0 : ℝ) 1, z = (e.1.lerp e.2 t).toPlane := by
  simp only [edgeSet, segment_eq_image', Set.mem_image, toPlane_lerp, eq_comm]

theorem edgeSet_horizontal (a b c : ℝ) :
    edgeSet (⟨a, c⟩, ⟨b, c⟩) = Set.uIcc a b ×ℂ ({c} : Set ℝ) := by
  have hends : ({(⟨a, c⟩ : ℂ), ⟨b, c⟩} : Set ℂ) = ({a, b} : Set ℝ) ×ℂ {c} := by
    ext z
    simp only [Set.mem_insert_iff, Set.mem_singleton_iff, Complex.mem_reProdIm, Complex.ext_iff]
    tauto
  show segment ℝ (⟨a, c⟩ : ℂ) ⟨b, c⟩ = _
  rw [← convexHull_pair, hends, Complex.convexHull_reProdIm, convexHull_pair, convexHull_singleton,
    segment_eq_uIcc]

theorem edgeSet_vertical (a c d : ℝ) :
    edgeSet (⟨a, c⟩, ⟨a, d⟩) = ({a} : Set ℝ) ×ℂ Set.uIcc c d := by
  have hends : ({(⟨a, c⟩ : ℂ), ⟨a, d⟩} : Set ℂ) = ({a} : Set ℝ) ×ℂ {c, d} := by
    ext z
    simp only [Set.mem_insert_iff, Set.mem_singleton_iff, Complex.mem_reProdIm, Complex.ext_iff]
    tauto
  show segment ℝ (⟨a, c⟩ : ℂ) ⟨a, d⟩ = _
  rw [← convexHull_pair, hends, Complex.convexHull_reProdIm, convexHull_pair, convexHull_singleton,
    segment_eq_uIcc]

/-- A disc that reaches an edge is found by the test. -/
theorem circleLineSegmentCollision_of_mem_edgeSet {c : Circle ℝ} {e : Point ℝ × Point ℝ} {z : ℂ}
    (hz : z ∈ edgeSet e) (hnear : dist z c.centre.toPlane ≤ c.r) :
    circleLineSegmentCollision c e.1 e.2 = true := by
  obtain ⟨t, ⟨h0, h1⟩, rfl⟩ := mem_edgeSet.mp hz
  rw [dist_toPlane] at hnear
  exact circleLineSegmentCollision_of_near h0 h1 hnear

/-- Every point of a segment is as near to its end as the beginning is. -/
theorem dist_le_of_mem_edgeSet {a b : Point ℝ} {z : ℂ} (hz : z ∈ edgeSet (a, b)) :
    dist z b.toPlane ≤ distance a b := by
  obtain ⟨t, ⟨h0, h1⟩, rfl⟩ := mem_edgeSet.mp hz
  rw [dist_toPlane, distance_comm, distance_right_lerp _ _ h1, distance_comm]
  nlinarith [distance_nonneg b a]

/-- A disc that the test reports reaches the whole line through the edge. -/
theorem circleLineSegmentCollision_eq_false {c : Circle ℝ} {a b : Point ℝ}
    (h : distance a b * c.r < |cross a b c.centre|) : circleLineSegmentCollision c a b = false := by
  rw [← Bool.not_eq_true]
  intro hhit
  exact h.not_ge (abs_cross_le_of_collision hhit)

/-! ## The region -/

/-- The region the border encloses: the convex hull of its points. -/
def GameMap.region (m : GameMap ℝ) : Set ℂ := convexHull ℝ {z | ∃ p ∈ m.borders, z = p.toPlane}

/-- The border is a convex polygon: its edges are the boundary of the region. -/
def GameMap.ConvexBorder (m : GameMap ℝ) : Prop :=
  m.borders ≠ [] ∧ frontier m.region = {z | ∃ e ∈ m.borderPolygon, z ∈ edgeSet e}

/-- A disc that leaves the region by a step no longer than its radius touches an edge. -/
theorem exists_edge_of_leaves {m : GameMap ℝ} (hm : m.ConvexBorder) {a : Point ℝ} {c : Circle ℝ}
    (hin : a.toPlane ∈ m.region) (hout : c.centre.toPlane ∉ m.region)
    (hstep : distance a c.centre ≤ c.r) :
    ∃ e ∈ m.borderPolygon, checkCollisionSegment c e.1 e.2 = true := by
  obtain ⟨z, hz, hfrontier⟩ := ConvexRegion.exists_mem_segment_frontier hin hout
  rw [hm.2] at hfrontier
  obtain ⟨e, he, hze⟩ := hfrontier
  exact ⟨e, he, circleLineSegmentCollision_of_mem_edgeSet hze
    ((dist_le_of_mem_edgeSet hz).trans hstep)⟩

/-! ## The square of `map1` -/

/-- The border of `Maps/map1`, without its walls and obstacles. -/
def squareMap : GameMap ℝ where
  borders := [⟨-1000, -1000⟩, ⟨1000, -1000⟩, ⟨1000, 1000⟩, ⟨-1000, 1000⟩]
  topLeft := ⟨-1000, -1000⟩
  bottomRight := ⟨1000, 1000⟩
  walls := []
  obstacles := []

def bottomEdge : Point ℝ × Point ℝ := (⟨-1000, -1000⟩, ⟨1000, -1000⟩)
def rightEdge : Point ℝ × Point ℝ := (⟨1000, -1000⟩, ⟨1000, 1000⟩)
def topEdge : Point ℝ × Point ℝ := (⟨1000, 1000⟩, ⟨-1000, 1000⟩)
def leftEdge : Point ℝ × Point ℝ := (⟨-1000, 1000⟩, ⟨-1000, -1000⟩)

theorem borderPolygon_squareMap :
    squareMap.borderPolygon = [bottomEdge, rightEdge, topEdge, leftEdge] := rfl

theorem borderEdges_squareMap : borderEdges squareMap.borders = some squareMap.borderPolygon := rfl

/-- The centre is further than the radius from all four lines the square is bounded by. -/
def FarFromSquare (c : Circle ℝ) : Prop :=
  (c.r < |c.centre.x - 1000| ∧ c.r < |c.centre.x + 1000|) ∧
    c.r < |c.centre.y - 1000| ∧ c.r < |c.centre.y + 1000|

theorem distance_squareMap : ∀ e ∈ squareMap.borderPolygon, distance e.1 e.2 = 2000 := by
  have hsqrt : Real.sqrt 4000000 = 2000 := by
    rw [show (4000000 : ℝ) = 2000 ^ 2 by norm_num, Real.sqrt_sq (by norm_num)]
  rw [borderPolygon_squareMap]
  intro e he
  simp only [List.mem_cons, List.not_mem_nil, or_false] at he
  rcases he with rfl | rfl | rfl | rfl <;> rw [distance_eq] <;>
    norm_num [hsqrt, bottomEdge, rightEdge, topEdge, leftEdge]

/-- A disc far from the lines of the square touches none of its edges. -/
theorem squareMap_edges_eq_false {c : Circle ℝ} (h : FarFromSquare c) :
    ∀ e ∈ squareMap.borderPolygon, checkCollisionSegment c e.1 e.2 = false := by
  obtain ⟨⟨hright, hleft⟩, htop, hbottom⟩ := h
  intro e he
  refine circleLineSegmentCollision_eq_false ?_
  rw [distance_squareMap e he]
  rw [borderPolygon_squareMap] at he
  simp only [List.mem_cons, List.not_mem_nil, or_false] at he
  -- for each edge the cross product is 2000 times the distance from its line
  have hscale : ∀ x : ℝ, |2000 * x| = 2000 * |x| := fun x => by rw [abs_mul]; norm_num
  rcases he with rfl | rfl | rfl | rfl
  · have : cross bottomEdge.1 bottomEdge.2 c.centre = 2000 * (c.centre.y + 1000) := by
      simp only [cross, bottomEdge]; ring
    rw [this, hscale]; linarith
  · have : cross rightEdge.1 rightEdge.2 c.centre = 2000 * -(c.centre.x - 1000) := by
      simp only [cross, rightEdge]; ring
    rw [this, hscale, abs_neg]; linarith
  · have : cross topEdge.1 topEdge.2 c.centre = 2000 * -(c.centre.y - 1000) := by
      simp only [cross, topEdge]; ring
    rw [this, hscale, abs_neg]; linarith
  · have : cross leftEdge.1 leftEdge.2 c.centre = 2000 * (c.centre.x + 1000) := by
      simp only [cross, leftEdge]; ring
    rw [this, hscale]; linarith

theorem clear_squareMap {p : Projectile ℝ} (h : FarFromSquare p.toCircle) : p.Clear squareMap :=
  ⟨rfl, _, borderEdges_squareMap, squareMap_edges_eq_false h⟩

/-- A player far from the lines of the square is not pushed. -/
theorem collideMap_squareMap {F : Type} {p : Player ℝ F} (h : FarFromSquare p.toCircle) :
    collideMap squareMap p = some p := by
  have hedges : ∀ edges ⊆ squareMap.borderPolygon, edges.foldl collideBorder p = p := by
    intro edges hsub
    induction edges with
    | nil => rfl
    | cons e edges ih =>
      have hmiss := squareMap_edges_eq_false h e (hsub List.mem_cons_self)
      rw [List.foldl_cons, collideBorder, pushOff, hmiss]
      exact ih fun e he => hsub (List.mem_cons_of_mem _ he)
  unfold collideMap
  rw [borderEdges_squareMap]
  exact congrArg some (hedges _ (List.Subset.refl _))

theorem region_squareMap : squareMap.region = Set.Icc (-1000) 1000 ×ℂ Set.Icc (-1000) 1000 := by
  have hcorners : {z | ∃ p ∈ squareMap.borders, z = p.toPlane}
      = ({-1000, 1000} : Set ℝ) ×ℂ {-1000, 1000} := by
    ext z
    simp only [squareMap, List.mem_cons, List.not_mem_nil, or_false, exists_eq_or_imp,
      exists_eq_left, Set.mem_ofPred_eq, Complex.mem_reProdIm, Set.mem_insert_iff,
      Set.mem_singleton_iff, Complex.ext_iff, Point.toPlane_re, Point.toPlane_im]
    tauto
  rw [GameMap.region, hcorners, Complex.convexHull_reProdIm, convexHull_pair,
    segment_eq_Icc (by norm_num)]

theorem mem_region_squareMap {p : Point ℝ} :
    p.toPlane ∈ squareMap.region ↔ (-1000 ≤ p.x ∧ p.x ≤ 1000) ∧ -1000 ≤ p.y ∧ p.y ≤ 1000 := by
  rw [region_squareMap, Complex.mem_reProdIm]
  rfl

theorem convexBorder_squareMap : squareMap.ConvexBorder := by
  refine ⟨by simp [squareMap], ?_⟩
  have hle : (-1000 : ℝ) ≤ 1000 := by norm_num
  rw [region_squareMap, Complex.frontier_reProdIm, frontier_Icc hle, closure_Icc,
    borderPolygon_squareMap]
  ext z
  simp only [List.mem_cons, List.not_mem_nil, or_false, exists_eq_or_imp, exists_eq_left,
    Set.mem_ofPred_eq, Set.mem_union, Complex.mem_reProdIm, Set.mem_insert_iff,
    Set.mem_singleton_iff, bottomEdge, rightEdge, topEdge, leftEdge, edgeSet_horizontal,
    edgeSet_vertical, Set.uIcc_of_le hle, Set.uIcc_of_ge hle]
  tauto

end PRShooter
