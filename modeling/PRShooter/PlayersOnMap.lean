import PRShooter.Spacing
import PRShooter.WallTest

/-!
# Players and the border

A player who is inside a convex border and walks out of it touches an edge at the end of the step,
so the border loop has something to push. Where the push ends is another matter: the loop takes the
depth from the distance to the line, so a centre that another player has pushed across the line is
not brought back (`pushed_outside`), and near an acute corner the push off one edge leads across the
other. `PushesHeld` says of the places after the steps, before anyone is pushed, that this cannot
happen.
-/

namespace PRShooter

variable {F : Type} {m : GameMap ℝ} {c : Point ℝ} {r d : ℝ}

/-! ## The border as a polygon -/

/-- The normals of the border edges point inwards. -/
def GameMap.InwardNormals (m : GameMap ℝ) : Prop :=
  ∀ e ∈ m.borderPolygon, ∀ p ∈ m.borders, 0 ≤ cross e.1 e.2 p

/-- The border is a convex polygon with an inside, and its normals point inwards. -/
structure GameMap.ConvexPolygon (m : GameMap ℝ) : Prop where
  convex : m.ConvexBorder
  inward : m.InwardNormals
  solid : (interior m.region).Nonempty

theorem cross_nonneg_of_mem_region (hm : m.ConvexPolygon) {e : Point ℝ × Point ℝ}
    (he : e ∈ m.borderPolygon) {z : ℂ} (hz : z ∈ m.region) : 0 ≤ cross e.1 e.2 (ofPlane z) := by
  have hhalf := convex_halfPlane 1 e.1 e.2
  simp only [one_mul] at hhalf
  refine convexHull_min ?_ hhalf hz
  rintro w ⟨p, hp, rfl⟩
  exact hm.inward e he p hp

theorem isClosed_region (m : GameMap ℝ) : IsClosed m.region := by
  have hfinite : {z | ∃ p ∈ m.borders, z = p.toPlane}.Finite := by
    refine (m.borders.toFinset.finite_toSet.image Point.toPlane).subset ?_
    rintro z ⟨p, hp, rfl⟩
    exact ⟨p, by simpa using hp, rfl⟩
  exact hfinite.isClosed_convexHull ℝ

/-- The normal of an edge, along which the border loop pushes. -/
def edgeNormal (e : Point ℝ × Point ℝ) : Point ℝ := ⟨-(e.2.y - e.1.y), e.2.x - e.1.x⟩

theorem cross_add_normal (e f : Point ℝ × Point ℝ) (z : Point ℝ) (s : ℝ) :
    cross f.1 f.2 (z + edgeNormal e * s)
      = cross f.1 f.2 z + s * (edgeNormal f).dotProduct (edgeNormal e) := by
  simp only [cross, edgeNormal, Point.dotProduct, Point.add_x, Point.add_y, Point.mul_x,
    Point.mul_y]
  ring

/-- Inside the polygon the cross product with an edge is positive. -/
theorem cross_pos_of_mem_interior (hm : m.ConvexPolygon) {e : Point ℝ × Point ℝ}
    (he : e ∈ m.borderPolygon) (hne : e.1 ≠ e.2) {z : ℂ} (hz : z ∈ interior m.region) :
    0 < cross e.1 e.2 (ofPlane z) := by
  refine ConvexRegion.pos_of_mem_interior (f := fun z => cross e.1 e.2 (ofPlane z))
    (v := (edgeNormal e).toPlane) (l := distance e.1 e.2 ^ 2)
    (fun w hw => cross_nonneg_of_mem_region hm he hw) hz (fun s => ?_)
    (pow_pos (distance_pos hne) 2)
  have hmoved : ofPlane (z + s • (edgeNormal e).toPlane) = ofPlane z + edgeNormal e * s := by
    apply Point.ext' <;> simp [ofPlane, mul_comm]
  show cross e.1 e.2 (ofPlane (z + s • (edgeNormal e).toPlane)) = _
  rw [hmoved, cross_add_normal, distance_sq]
  simp only [Point.dotProduct, edgeNormal]
  ring

/-- **Crossing the border.** The way from a place inside to one outside passes an edge, up to an
arbitrarily small distance, and leads to its outer side. -/
theorem exists_crossed_edge (hm : m.ConvexPolygon) {a b : Point ℝ} (hin : a.toPlane ∈ m.region)
    (hout : b.toPlane ∉ m.region) {ε : ℝ} (hε : 0 < ε) :
    ∃ e ∈ m.borderPolygon, (∃ t ∈ Set.Icc (0 : ℝ) 1, ∃ z ∈ edgeSet e,
      dist z (a.lerp b t).toPlane ≤ ε) ∧ (e.1 ≠ e.2 → cross e.1 e.2 b < 0) := by
  have hconvex : Convex ℝ m.region := convex_convexHull ℝ _
  obtain ⟨x, hx, hnear, t, ⟨h0, h1⟩, hfrontier⟩ :=
    ConvexRegion.exists_crossing hconvex (isClosed_region m) hm.solid hin hout hε
  have hz : x + t • (b.toPlane - x) = ((ofPlane x).lerp b t).toPlane := by
    rw [toPlane_lerp, toPlane_ofPlane]
  rw [hm.convex.2, hz] at hfrontier
  obtain ⟨e, he, hze⟩ := hfrontier
  refine ⟨e, he, ⟨t, ⟨h0, h1.le⟩, _, hze, ?_⟩, fun hne => ?_⟩
  · have hshift : ((ofPlane x).lerp b t).toPlane - (a.lerp b t).toPlane
        = (1 - t) • (x - a.toPlane) := by
      rw [toPlane_lerp, toPlane_lerp, toPlane_ofPlane]
      module
    rw [dist_eq_norm, hshift, norm_smul, Real.norm_eq_abs, abs_of_pos (by linarith),
      ← dist_eq_norm, dist_comm]
    nlinarith [dist_nonneg (x := a.toPlane) (y := x)]
  · have hpos := cross_pos_of_mem_interior hm he hne hx
    obtain ⟨s, -, hs⟩ := mem_edgeSet.mp hze
    have hzero : cross e.1 e.2 ((ofPlane x).lerp b t) = 0 := by
      rw [← ofPlane_toPlane ((ofPlane x).lerp b t), hs, ofPlane_toPlane, cross_lerp, cross_left,
        cross_right]
      ring
    rw [cross_lerp] at hzero
    by_contra hnonneg
    have hstart : 0 < (1 - t) * cross e.1 e.2 (ofPlane x) := mul_pos (by linarith) hpos
    linarith [mul_nonneg h0 (not_lt.mp hnonneg)]

/-- If both places are within `r` of `c`, the edge may be touched from there. -/
theorem exists_outer_edge (hm : m.ConvexPolygon) {a b : Point ℝ} (ha : distance c a ≤ r)
    (hb : distance c b ≤ r) (hin : a.toPlane ∈ m.region) (hout : b.toPlane ∉ m.region) :
    ∃ e ∈ m.borderPolygon, MayTouch c r e ∧ (e.1 ≠ e.2 → cross e.1 e.2 b < 0) := by
  obtain ⟨e, he, ⟨t, ht, z, hz, hnear⟩, hcross⟩ :=
    exists_crossed_edge hm hin hout (by norm_num : (0 : ℝ) < 30)
  refine ⟨e, he, ⟨a.lerp b t, ?_, circleLineSegmentCollision_of_mem_edgeSet hz hnear⟩, hcross⟩
  have hball : (a.lerp b t).toPlane ∈ Metric.closedBall c.toPlane r := by
    rw [toPlane_lerp]
    refine (convex_closedBall c.toPlane r).add_smul_sub_mem ?_ ?_ ht <;>
      rwa [Metric.mem_closedBall, dist_comm, dist_toPlane]
  rwa [Metric.mem_closedBall, dist_comm, dist_toPlane] at hball

/-- After a step out of the polygon the player touches the edge it has crossed. -/
theorem exists_touched_edge (hm : m.ConvexPolygon) {a : Point ℝ} (hin : a.toPlane ∈ m.region)
    (hstep : distance a c ≤ 1) (hout : c.toPlane ∉ m.region) :
    ∃ e ∈ m.borderPolygon, checkCollisionSegment ⟨c, 30⟩ e.1 e.2 = true ∧
      (e.1 ≠ e.2 → cross e.1 e.2 c < 0) := by
  obtain ⟨e, he, ⟨t, ⟨h0, h1⟩, z, hz, hnear⟩, hcross⟩ :=
    exists_crossed_edge hm hin hout (by norm_num : (0 : ℝ) < 29)
  refine ⟨e, he, circleLineSegmentCollision_of_mem_edgeSet hz ?_, hcross⟩
  have hend : distance (a.lerp c t) c ≤ 1 := by
    rw [distance_comm, distance_right_lerp _ _ h1]
    nlinarith [distance_nonneg a c]
  have htriangle := dist_triangle z (a.lerp c t).toPlane c.toPlane
  rw [dist_toPlane] at htriangle
  show dist z c.toPlane ≤ 30
  linarith

/-! ## The border loop -/

/-- No corner between two edges that may be touched is acute: the normals do not point against each
other. -/
def BluntCorners (m : GameMap ℝ) (c : Point ℝ) (r : ℝ) : Prop :=
  ∀ e ∈ m.borderPolygon, ∀ f ∈ m.borderPolygon, MayTouch c r e → MayTouch c r f →
    0 ≤ (edgeNormal e).dotProduct (edgeNormal f)

/-- At most one edge may be touched. -/
def OneEdge (m : GameMap ℝ) (c : Point ℝ) (r : ℝ) : Prop :=
  ∀ e ∈ m.borderPolygon, ∀ f ∈ m.borderPolygon, MayTouch c r e → MayTouch c r f → e = f

/-- The border loop cannot leave a player outside that it meets within `d` of `c`: all it reaches is
inside, or the player is at `c`, and `c` is inside and no acute corner is near, or only one edge. -/
def HeldByBorder (m : GameMap ℝ) (c : Point ℝ) (r d : ℝ) : Prop :=
  (∀ z, distance c z ≤ r → z.toPlane ∈ m.region) ∨
    d = 0 ∧ (c.toPlane ∈ m.region ∧ BluntCorners m c r ∨ OneEdge m c r)

theorem OneEdge.bluntCorners (h : OneEdge m c r) : BluntCorners m c r := by
  intro e he f hf hmay hmayf
  rw [h e he f hf hmay hmayf]
  exact add_nonneg (mul_self_nonneg _) (mul_self_nonneg _)

section Body

variable {e : Point ℝ × Point ℝ} {p : Player ℝ F}

theorem collideBorder_of_touched (h : checkCollisionSegment p.toCircle e.1 e.2 = true) :
    collideBorder p e = p.moveTo (p.centre + edgePush p.toCircle e.1 e.2) := by
  unfold collideBorder
  rw [pushOff, if_pos h, moveAlongNormalSegment_eq]

theorem collideBorder_of_missed (h : checkCollisionSegment p.toCircle e.1 e.2 = false) :
    collideBorder p e = p := by
  unfold collideBorder
  rw [pushOff, h]
  rfl

/-- A push off an edge is a step along its normal. -/
theorem exists_edgePush_eq (h : checkCollisionSegment p.toCircle e.1 e.2 = true) (hne : e.1 ≠ e.2) :
    ∃ s : ℝ, 0 ≤ s ∧ p.centre + edgePush p.toCircle e.1 e.2 = p.centre + edgeNormal e * s := by
  have hd : 0 < distance e.1 e.2 := distance_pos hne
  refine ⟨_, div_nonneg ?_ hd.le, congrArg (p.centre + ·) (edgePush_eq p.toCircle e.1 e.2)⟩
  rw [sub_nonneg, abs_signedDistance, div_le_iff₀ hd, mul_comm]
  exact abs_cross_le_of_collision h

/-- The test against an edge keeps a player inside. -/
theorem inside_collideBorder (hm : m.ConvexPolygon) (hblunt : BluntCorners m c r)
    (hends : ∀ f ∈ m.borderPolygon, MayTouch c r f → f.1 ≠ f.2) (he : e ∈ m.borderPolygon)
    (hp : p.Within c d) (hreach : edgeReach c r d e ≤ r) (hin : p.centre.toPlane ∈ m.region) :
    (collideBorder p e).centre.toPlane ∈ m.region := by
  cases htouch : checkCollisionSegment p.toCircle e.1 e.2 with
  | false => rwa [collideBorder_of_missed htouch]
  | true =>
    have hnear : distance c p.centre ≤ r := hp.2.trans ((le_edgeReach hp.nonneg e).trans hreach)
    have hmay : MayTouch c r e := ⟨p.centre, hnear, hp.toCircle ▸ htouch⟩
    have hnext : (collideBorder p e).Within c (edgeReach c r d e) :=
      (within_pushOff (.inl ⟨rfl, rfl⟩) (hends e he) hp hreach).2
    by_contra hout
    obtain ⟨f, hf, hmayf, hcross⟩ := exists_outer_edge hm hnear (hnext.2.trans hreach) hin hout
    -- the push off `e` does not lead to the outer side of `f`
    obtain ⟨s, hs, hpush⟩ := exists_edgePush_eq htouch (hends e he hmay)
    have hneg := hcross (hends f hf hmayf)
    rw [collideBorder_of_touched htouch, Player.moveTo_centre, hpush, cross_add_normal] at hneg
    have hstart := cross_nonneg_of_mem_region hm hf hin
    rw [ofPlane_toPlane] at hstart
    linarith [mul_nonneg hs (hblunt f hf e he hmayf hmay)]

end Body

theorem inside_foldl_collideBorder (hm : m.ConvexPolygon) (hblunt : BluntCorners m c r)
    (hends : ∀ f ∈ m.borderPolygon, MayTouch c r f → f.1 ≠ f.2) (edges : List (Point ℝ × Point ℝ)) :
    edges ⊆ m.borderPolygon → ∀ {p : Player ℝ F} {d : ℝ}, p.Within c d →
      edges.foldl (edgeReach c r) d ≤ r → p.centre.toPlane ∈ m.region →
        (edges.foldl collideBorder p).centre.toPlane ∈ m.region := by
  induction edges with
  | nil => exact fun _ _ _ _ _ hin => hin
  | cons e edges ih =>
    intro hsub p d hp hreach hin
    have he := hsub List.mem_cons_self
    have hstep : edgeReach c r d e ≤ r := (le_foldl_reach (fun _ f h => le_edgeReach h f) edges
      (hp.nonneg.trans (le_edgeReach hp.nonneg e))).trans hreach
    exact ih (fun f hf => hsub (List.mem_cons_of_mem e hf))
      (within_pushOff (.inl ⟨rfl, rfl⟩) (hends e he) hp hstep).2 hreach
      (inside_collideBorder hm hblunt hends he hp hstep hin)

theorem Player.Within.toCircle_of_zero {p : Player ℝ F} (hp : p.Within c 0) :
    p.toCircle = ⟨c, 30⟩ := by
  have hcentre : c = p.centre :=
    distance_eq_zero_iff.mp (le_antisymm hp.2 (distance_nonneg c p.centre))
  rw [hp.toCircle, hcentre]

/-- At the only edge that is near, a player whose step has led at most by 1 across it is pushed back
in. -/
theorem inside_collideBorder_of_step (hm : m.ConvexPolygon) (hone : OneEdge m c r) {a : Point ℝ}
    (hin : a.toPlane ∈ m.region) (hstep : distance a c ≤ 1) {e : Point ℝ × Point ℝ}
    (he : e ∈ m.borderPolygon) (hne : e.1 ≠ e.2)
    (htouch : checkCollisionSegment ⟨c, 30⟩ e.1 e.2 = true) (houter : cross e.1 e.2 c < 0)
    {p : Player ℝ F} (hp : p.Within c 0) (hreach : edgeReach c r 0 e ≤ r) :
    (collideBorder p e).centre.toPlane ∈ m.region := by
  have hd : 0 < distance e.1 e.2 := distance_pos hne
  have hr : 0 ≤ r := (le_edgeReach le_rfl e).trans hreach
  have hmay : MayTouch c r e := ⟨c, by rwa [distance_eq_zero_iff.mpr rfl], htouch⟩
  -- the step has led across the edge by at most 1
  set σ := signedDistance e.1 e.2 c with hσ
  have hneg : σ < 0 := div_neg_of_neg_of_pos houter hd
  have hstart := cross_nonneg_of_mem_region hm he hin
  rw [ofPlane_toPlane] at hstart
  have hgap := (abs_le.mp ((abs_cross_sub_le e.1 e.2 a c).trans
    (mul_le_mul_of_nonneg_left hstep hd.le))).1
  have hge : -1 ≤ σ := by
    rw [hσ, signedDistance, le_div_iff₀ hd]
    linarith
  -- so the edge pushes it by 29 at least
  have hfar : 29 ≤ r := by
    rw [edgeReach_of_mayTouch hmay, triangleHeight_eq_abs_signedDistance, abs_of_neg hneg] at hreach
    linarith [le_abs_self (30 - -signedDistance e.1 e.2 c)]
  have hcircle := hp.toCircle_of_zero
  have hcollision : checkCollisionSegment p.toCircle e.1 e.2 = true := by rwa [hcircle]
  have hend : signedDistance e.1 e.2 (collideBorder p e).centre = σ + 30 - |σ| := by
    have hpushed := (pushed_off_edge p e.1 e.2 hne hcollision).2.1
    rw [congrArg Circle.centre hcircle, hp.1] at hpushed
    rw [collideBorder, pushOff, if_pos hcollision]
    exact hpushed
  have hnext : (collideBorder p e).Within c (edgeReach c r 0 e) :=
    (within_pushOff (.inl ⟨rfl, rfl⟩) (fun _ => hne) hp hreach).2
  by_contra hout
  obtain ⟨f, hf, hmayf, hcross⟩ := exists_outer_edge hm
    (by rw [distance_comm]; linarith) (hnext.2.trans hreach) hin hout
  obtain rfl : f = e := hone f hf e he hmayf hmay
  have hlost : signedDistance f.1 f.2 (collideBorder p f).centre < 0 :=
    div_neg_of_neg_of_pos (hcross hne) hd
  rw [hend, abs_of_neg hneg] at hlost
  linarith

/-- The border loop brings back who has stepped across the only edge that is near. -/
theorem inside_foldl_of_oneEdge (hm : m.ConvexPolygon) (hone : OneEdge m c r)
    (hends : ∀ f ∈ m.borderPolygon, MayTouch c r f → f.1 ≠ f.2) {a : Point ℝ}
    (hin : a.toPlane ∈ m.region) (hstep : distance a c ≤ 1) {e : Point ℝ × Point ℝ}
    (hne : e.1 ≠ e.2) (htouch : checkCollisionSegment ⟨c, 30⟩ e.1 e.2 = true)
    (houter : cross e.1 e.2 c < 0) (edges : List (Point ℝ × Point ℝ)) :
    edges ⊆ m.borderPolygon → e ∈ edges → ∀ {p : Player ℝ F}, p.Within c 0 →
      edges.foldl (edgeReach c r) 0 ≤ r →
        (edges.foldl collideBorder p).centre.toPlane ∈ m.region := by
  induction edges with
  | nil => exact fun _ he => absurd he List.not_mem_nil
  | cons f edges ih =>
    intro hsub he p hp hreach
    have hf := hsub List.mem_cons_self
    have hrest : edges ⊆ m.borderPolygon := fun f hf => hsub (List.mem_cons_of_mem _ hf)
    have hle := le_edgeReach (c := c) (r := r) le_rfl f
    have hfirst : edgeReach c r 0 f ≤ r :=
      (le_foldl_reach (fun _ f h => le_edgeReach h f) edges hle).trans hreach
    have hmay : MayTouch c r e :=
      ⟨c, by rw [distance_eq_zero_iff.mpr rfl]; exact hle.trans hfirst, htouch⟩
    by_cases hfe : f = e
    · subst hfe
      exact inside_foldl_collideBorder hm hone.bluntCorners hends edges hrest
        (within_pushOff (.inl ⟨rfl, rfl⟩) (fun _ => hne) hp hfirst).2 hreach
        (inside_collideBorder_of_step hm hone hin hstep hf hne htouch houter hp hfirst)
    · have hfar : ¬ MayTouch c r f := fun h => hfe (hone f hf e (hsub he) h hmay)
      have hmissed : checkCollisionSegment p.toCircle f.1 f.2 = false := by
        rw [← Bool.not_eq_true, hp.toCircle_of_zero]
        exact fun h => hfar ⟨c, by rw [distance_eq_zero_iff.mpr rfl]; exact hle.trans hfirst, h⟩
      rw [List.foldl_cons, collideBorder_of_missed hmissed]
      rw [List.foldl_cons, edgeReach, if_neg hfar] at hreach
      exact ih hrest ((List.mem_cons.mp he).resolve_left (Ne.symm hfe)) hp hreach

/-! ## The map loops -/

theorem collideMap_eq (hne : m.borders ≠ []) (hwalls : m.walls = []) (hobstacles : m.obstacles = [])
    (p : Player ℝ F) : collideMap m p = some (m.borderPolygon.foldl collideBorder p) := by
  unfold collideMap
  rw [hwalls, hobstacles, borderEdges_eq hne]
  rfl

theorem mapReach_eq (hwalls : m.walls = []) (hobstacles : m.obstacles = []) :
    mapReach m c r d = m.borderPolygon.foldl (edgeReach c r) d := by
  unfold mapReach
  rw [hwalls, hobstacles]
  rfl

/-- The map loops leave a player inside that they meet within `d` of `c`. -/
theorem inside_of_heldByBorder (hm : m.ConvexPolygon) (hwalls : m.walls = [])
    (hobstacles : m.obstacles = []) (hends : HeldByBorder m c r d) (hfits : MapFits m c r d)
    {a : Point ℝ} (hin : a.toPlane ∈ m.region) (hstep : distance a c ≤ 1) {p q : Player ℝ F}
    (hp : p.Within c d) (hq : collideMap m p = some q) : q.centre.toPlane ∈ m.region := by
  rcases hends with hball | ⟨rfl, hplace⟩
  · exact hball _ ((hfits.apart hp).2 q hq).2
  have hreach := hfits.reach
  rw [mapReach_eq hwalls hobstacles] at hreach
  rw [collideMap_eq hm.convex.1 hwalls hobstacles] at hq
  obtain rfl := Option.some.inj hq
  have hinside : c.toPlane ∈ m.region → BluntCorners m c r →
      (m.borderPolygon.foldl collideBorder p).centre.toPlane ∈ m.region := by
    intro hc hblunt
    refine inside_foldl_collideBorder hm hblunt hfits.border _ (List.Subset.refl _) hp hreach ?_
    rwa [congrArg Circle.centre hp.toCircle_of_zero]
  rcases hplace with ⟨hc, hblunt⟩ | hone
  · exact hinside hc hblunt
  by_cases hc : c.toPlane ∈ m.region
  · exact hinside hc hone.bluntCorners
  · obtain ⟨e, he, htouch, houter⟩ := exists_touched_edge hm hin hstep hc
    have hr : 0 ≤ r := (le_foldl_reach (fun _ f h => le_edgeReach h f) _ le_rfl).trans hreach
    have hne := hfits.border e he ⟨c, by rwa [distance_eq_zero_iff.mpr rfl], htouch⟩
    exact inside_foldl_of_oneEdge hm hone hfits.border hin hstep hne htouch (houter hne) _
      (List.Subset.refl _) he hp hreach

/-- Nor does a player end outside that touches nothing of the map on its way. -/
theorem inside_of_mapClear (hm : m.ConvexPolygon) (hclear : MapClear m c r) (hr : 0 ≤ r)
    {a b : Point ℝ} (hin : a.toPlane ∈ m.region) (hstep : distance a c ≤ 1)
    (hb : distance c b ≤ r) : b.toPlane ∈ m.region := by
  have hself : distance c c ≤ r := by rwa [distance_eq_zero_iff.mpr rfl]
  have hc : c.toPlane ∈ m.region := by
    by_contra hout
    obtain ⟨e, he, htouch, -⟩ := exists_touched_edge hm hin hstep hout
    exact hclear.border e he ⟨c, hself, htouch⟩
  by_contra hout
  obtain ⟨e, he, hmay, -⟩ := exists_outer_edge hm hself hb hc hout
  exact hclear.border e he hmay

/-! ## One step -/

/-- The velocity passes the test of `changePlayerMovement`. -/
def Slow (v : Point ℝ) : Prop := velocityAllowed v.x v.y = true

theorem distance_advance_le {p : Player ℝ F} (hslow : Slow p.velocity) :
    distance p.centre p.advance.centre ≤ 1 := by
  have hsq : p.velocity.x ^ 2 + p.velocity.y ^ 2 ≤ 1.00001 := by
    have hle := of_decide_eq_true hslow
    simp only [square, Constants.epsilonOne] at hle
    norm_num at hle ⊢
    nlinarith
  have hone : distance p.centre p.advance.centre ^ 2 ≤ 1 ^ 2 := by
    rw [distance_sq]
    unfold Player.advance
    split_ifs
    · norm_num
    · simp only [Point.add_x, Point.add_y, Point.mul_x, Point.mul_y, Constants.maxPlayerSpeed,
        Constants.doubleTimestep]
      norm_num at hsq ⊢
      nlinarith
  exact (sq_le_sq₀ (distance_nonneg _ _) zero_le_one).mp hone

/-! ## The player loop -/

/-- The places after the steps of a tick are such that no push leads outside: the pushes do not run
into each other, and where the map loops meet a player they leave it inside. -/
def PushesHeld (g : Game ℝ F) : Prop :=
  ∃ reach, Spaced g.gameMap (updatePositions g).players reach ∧
    ∀ k, Lone g.gameMap (updatePositions g).players reach k →
      HeldByBorder g.gameMap ((updatePositions g).players.val k).centre (reach k)
        (crowd (updatePositions g).players reach k)

/-- An alive player who has been inside before its step is inside after the player loop. -/
theorem inside_of_spread (hm : m.ConvexPolygon) (hwalls : m.walls = [])
    (hobstacles : m.obstacles = []) {start players : UMap ℕ (Player ℝ F)} {reach : ℕ → ℝ}
    (hspaced : Spaced m start reach)
    (hends : ∀ k, Lone m start reach k →
      HeldByBorder m (start.val k).centre (reach k) (crowd start reach k))
    (hspread : Spread m start reach (start.keys.reverse ++ []) players) {k : ℕ}
    (hk : k ∈ start.keys) (halive : (start.val k).alive = true) {a : Point ℝ}
    (hin : a.toPlane ∈ m.region) (hstep : distance a (start.val k).centre ≤ 1) :
    (players.val k).centre.toPlane ∈ m.region := by
  rcases hspaced.alive k hk halive with ⟨j, hpair⟩ | hlone
  · exact inside_of_mapClear hm hpair.clear (hspaced.nonneg k) hin hstep (hspread.near k)
  · obtain ⟨p, hp, hq⟩ := hspread.ended k hlone (by simpa using hk)
    exact inside_of_heldByBorder hm hwalls hobstacles (hends k hlone) hlone.fits hin hstep hp hq

/-! ## Runs -/

/-- What every player keeps between two events. -/
structure Player.OnMap (m : GameMap ℝ) (p : Player ℝ F) : Prop where
  r : p.r = 30
  slow : Slow p.velocity
  inside : p.alive = true → p.centre.toPlane ∈ m.region

theorem slow_zero : Slow 0 := by
  refine decide_eq_true ?_
  norm_num [square, Constants.epsilonOne]

theorem onMap_new [Zero F] (playerId : ℕ) : (Player.new playerId : Player ℝ F).OnMap m where
  r := by norm_num [Player.new, Constants.playerRadius]
  slow := slow_zero
  inside h := by cases h

/-- The map is `m`, and every player is on it. -/
structure PlayersOnMap (m : GameMap ℝ) (g : Game ℝ F) : Prop where
  gameMap : g.gameMap = m
  players : ∀ k ∈ g.players.keys, (g.players.val k).OnMap m

/-- A player spawns inside the border. The other events are free. -/
def SpawnsInside (g : Game ℝ F) : GameEvent ℝ F → Prop
  | .spawn _ _ draw => (drawnPoint draw : Point ℝ).toPlane ∈ g.gameMap.region
  | _ => True

/-- Players spawn inside the border, and in a tick no push leads outside. -/
def StaysOnMap (g : Game ℝ F) : GameEvent ℝ F → Prop
  | .tick _ => PushesHeld g
  | e => SpawnsInside g e

theorem PlayersOnMap.all {g : Game ℝ F} (h : PlayersOnMap m g) :
    g.players.All fun _ p => p.OnMap m := h.players

theorem PlayersOnMap.index [Zero F] {g : Game ℝ F} (h : PlayersOnMap m g) (ρ : Rehash ℕ)
    (playerId : ℕ) : PlayersOnMap m (g.indexPlayer ρ playerId) :=
  ⟨h.gameMap, h.all.index ρ (onMap_new 0)⟩

theorem PlayersOnMap.set {g : Game ℝ F} (h : PlayersOnMap m g) {playerId : ℕ} {p : Player ℝ F}
    (hp : p.OnMap m) : PlayersOnMap m (g.setPlayer playerId p) :=
  ⟨h.gameMap, h.all.set fun _ => hp⟩

theorem onMap_tick [Zero F] {g g' : Game ℝ F} (hm : m.ConvexPolygon) (hwalls : m.walls = [])
    (hobstacles : m.obstacles = []) (h : PlayersOnMap m g) (hheld : PushesHeld g) {ρ : Rehash ℕ}
    (htick : tick ρ g = some g') : PlayersOnMap m g' := by
  obtain ⟨players, players', projectiles, hplayers, hloop, rfl⟩ := tick_eq_some.mp htick
  have hstart := onlyCentres_updatePositions g
  have hcentres := hstart.trans (onlyCentres_checkPlayerCollisions hplayers)
  have hhits := onlyHits_projectileLoop hloop
  obtain ⟨reach, hspaced, hends⟩ := hheld
  rw [h.gameMap] at hspaced hends hplayers
  have hradius : RadiusOk g.players := fun k hk => (h.players k hk).r
  have hspread := (hspaced.loop (hradius.onlyCentres hstart)).2 players hplayers
  refine ⟨h.gameMap, fun k hk => ?_⟩
  by_cases hold : k ∈ players.keys
  · have hkey : k ∈ g.players.keys := hcentres.1 ▸ hold
    have hp := h.players k hkey
    have hcircle := hhits.circle k hold
    refine ⟨?_, ?_, fun halive => ?_⟩
    · exact (congrArg Circle.r hcircle).trans ((hcentres.r k).trans hp.r)
    · show Slow (players'.val k).velocity
      rw [hhits.velocity k hold, hcentres.velocity k]
      exact hp.slow
    · have halive' : (g.players.val k).alive = true :=
        (hcentres.alive k).symm.trans (hhits.alive k hk halive).2
      rw [congrArg Circle.centre hcircle]
      exact inside_of_spread hm hwalls hobstacles hspaced hends hspread hkey
        ((hstart.alive k).trans halive') (hp.inside halive') (distance_advance_le hp.slow)
  · obtain ⟨hcircle, hvelocity⟩ := hhits.fresh k hk hold
    have hnew : (Player.new 0 : Player ℝ F).OnMap m := onMap_new 0
    refine ⟨(congrArg Circle.r hcircle).trans hnew.r, ?_,
      fun halive => absurd (hhits.alive k hk halive).1 hold⟩
    show Slow (players'.val k).velocity
    rw [hvelocity]
    exact slow_zero

theorem onMap_step {g g' : Game ℝ ℝ} (hm : m.ConvexPolygon) (hwalls : m.walls = [])
    (hobstacles : m.obstacles = []) (h : PlayersOnMap m g) {e : GameEvent ℝ ℝ}
    (hok : StaysOnMap g e) (hstep : g.step e = some g') : PlayersOnMap m g' := by
  cases e with
  | connect ρ playerId =>
    obtain rfl := Option.some.inj hstep
    exact ⟨h.gameMap, h.all.insert ρ (onMap_new playerId)⟩
  | disconnect playerId =>
    obtain rfl := Option.some.inj hstep
    exact ⟨h.gameMap, h.all.erase playerId⟩
  | spawn ρ playerId draw =>
    simp only [Game.step] at hstep
    split_ifs at hstep
    obtain rfl := Option.some.inj hstep
    have hindex := h.index ρ playerId
    have hplayer := hindex.players playerId (UMap.self_mem_keys_index _ _ _ _)
    have hinside : (drawnPoint draw : Point ℝ).toPlane ∈ m.region := h.gameMap ▸ hok
    simp only [spawnPlayer]
    split_ifs
    · exact hindex.set ⟨hplayer.r, hplayer.slow, fun _ => hinside⟩
    · exact hindex
  | shoot ρ playerId =>
    obtain rfl := Option.some.inj hstep
    have hindex := h.index ρ playerId
    simp only [shootProjectile]
    split_ifs
    · exact hindex
    · exact ⟨hindex.gameMap, hindex.players⟩
  | changeOrientation ρ playerId angle =>
    obtain rfl := Option.some.inj hstep
    have hindex := h.index ρ playerId
    have hplayer := hindex.players playerId (UMap.self_mem_keys_index _ _ _ _)
    exact hindex.set ⟨hplayer.r, hplayer.slow, hplayer.inside⟩
  | changeMovement ρ playerId velocityX velocityY =>
    obtain rfl := Option.some.inj hstep
    have hindex := h.index ρ playerId
    have hplayer := hindex.players playerId (UMap.self_mem_keys_index _ _ _ _)
    unfold changePlayerMovement
    split_ifs with hallowed
    · exact hindex.set ⟨hplayer.r, hallowed, hplayer.inside⟩
    · exact h
  | tick ρ => exact onMap_tick hm hwalls hobstacles h hok hstep

/-- **Players stay on the map.** In a run on a convex polygon without walls and obstacles, in which
players spawn inside and in no tick a push leads outside, each tick leaves every alive player inside
or on the border. -/
theorem alive_inside_after_tick (m : GameMap ℝ) (hm : m.ConvexPolygon) (hwalls : m.walls = [])
    (hobstacles : m.obstacles = []) (g g' : Game ℝ ℝ)
    (hreach : Lts.Reach Game.step StaysOnMap (Game.initial m) g) (ρ : Rehash ℕ)
    (hheld : PushesHeld g) (htick : g.step (.tick ρ) = some g') :
    ∀ k ∈ g'.players.keys, (g'.players.val k).alive = true →
      (g'.players.val k).centre.toPlane ∈ m.region := by
  have hinit : PlayersOnMap m (Game.initial m : Game ℝ ℝ) :=
    ⟨rfl, fun k hk => absurd hk List.not_mem_nil⟩
  have hg : PlayersOnMap m g :=
    hreach.invariant hinit fun _ _ _ hI hok hstep => onMap_step hm hwalls hobstacles hI hok hstep
  intro k hk
  exact ((onMap_tick hm hwalls hobstacles hg hheld htick).players k hk).inside

/-! ## A player at the right edge of the square -/

theorem inwardNormals_squareMap : squareMap.InwardNormals := by
  intro e he p hp
  rw [borderPolygon_squareMap] at he
  simp only [squareMap, List.mem_cons, List.not_mem_nil, or_false] at he hp
  rcases he with rfl | rfl | rfl | rfl <;> rcases hp with rfl | rfl | rfl | rfl <;>
    norm_num [cross, bottomEdge, rightEdge, topEdge, leftEdge]

theorem convexPolygon_squareMap : squareMap.ConvexPolygon where
  convex := convexBorder_squareMap
  inward := inwardNormals_squareMap
  solid := by
    refine ⟨0, ?_⟩
    rw [region_squareMap, Complex.interior_reProdIm, interior_Icc, Complex.mem_reProdIm]
    norm_num

theorem cross_rightEdge (c : Point ℝ) :
    cross rightEdge.1 rightEdge.2 c = 2000 * (1000 - c.x) := by
  simp only [cross, rightEdge]
  ring

theorem edgePush_rightEdge (x : ℝ) :
    edgePush ⟨⟨x, 0⟩, 30⟩ rightEdge.1 rightEdge.2 = ⟨-(30 - |1000 - x|), 0⟩ := by
  have hlength : distance rightEdge.1 rightEdge.2 = 2000 :=
    distance_squareMap rightEdge (by simp [borderPolygon_squareMap])
  have hdepth : |cross rightEdge.1 rightEdge.2 ⟨x, 0⟩| / 2000 = |1000 - x| := by
    rw [cross_rightEdge, abs_mul, abs_of_pos (by norm_num : (0 : ℝ) < 2000)]
    exact mul_div_cancel_left₀ _ (by norm_num)
  unfold edgePush
  rw [hlength, hdepth]
  apply Point.ext' <;> norm_num [rightEdge]

/-- A disc on the horizontal axis touches the upper and the lower edge never, the left edge only
from the left half, and the right edge from as far as its radius. -/
theorem axis_edges {x : ℝ} (hx : 0 ≤ x) :
    checkCollisionSegment ⟨⟨x, 0⟩, 30⟩ bottomEdge.1 bottomEdge.2 = false ∧
      checkCollisionSegment ⟨⟨x, 0⟩, 30⟩ topEdge.1 topEdge.2 = false ∧
      checkCollisionSegment ⟨⟨x, 0⟩, 30⟩ leftEdge.1 leftEdge.2 = false := by
  refine ⟨?_, ?_, ?_⟩ <;> refine circleLineSegmentCollision_eq_false ?_ <;>
    rw [distance_squareMap _ (by simp [borderPolygon_squareMap]), lt_abs] <;> left <;>
    norm_num [cross, bottomEdge, topEdge, leftEdge]
  nlinarith

theorem touches_rightEdge {x : ℝ} (hx : |1000 - x| ≤ 30) :
    checkCollisionSegment ⟨⟨x, 0⟩, 30⟩ rightEdge.1 rightEdge.2 = true := by
  have hmiddle : rightEdge.1.lerp rightEdge.2 (1 / 2) = ⟨1000, 0⟩ := by
    norm_num [Point.lerp, rightEdge]
  refine circleLineSegmentCollision_of_near (t := 1 / 2) (by norm_num) (by norm_num) ?_
  rw [hmiddle, distance_eq]
  show Real.sqrt ((x - 1000) ^ 2 + (0 - 0) ^ 2) ≤ 30
  rw [sub_self, zero_pow two_ne_zero, add_zero, Real.sqrt_sq_eq_abs, abs_sub_comm]
  exact hx

/-- At the right edge the only push is off this edge, to the left by the depth of the disc. -/
theorem collideMap_axis {p : Player ℝ F} {x : ℝ} (hcircle : p.toCircle = ⟨⟨x, 0⟩, 30⟩)
    (hx : |1000 - x| ≤ 30) :
    collideMap squareMap p = some (p.moveTo ⟨x - (30 - |1000 - x|), 0⟩) := by
  have hbounds := abs_le.mp hx
  have hx' : 0 ≤ x - (30 - |1000 - x|) := by linarith [abs_nonneg (1000 - x)]
  obtain ⟨hbottom, -, -⟩ := axis_edges (x := x) (by linarith)
  have hright := touches_rightEdge hx
  obtain ⟨-, htop, hleft⟩ := axis_edges hx'
  have hcentre : p.centre + edgePush p.toCircle rightEdge.1 rightEdge.2
      = ⟨x - (30 - |1000 - x|), 0⟩ := by
    rw [hcircle, edgePush_rightEdge]
    apply Point.ext' <;> simp only [Point.add_x, Point.add_y] <;> ring
  have hmoved : (p.moveTo ⟨x - (30 - |1000 - x|), 0⟩).toCircle = ⟨⟨x - (30 - |1000 - x|), 0⟩, 30⟩ :=
    congrArg (Circle.mk _) (congrArg Circle.r hcircle)
  rw [← hcircle] at hbottom hright
  rw [← hmoved] at htop hleft
  rw [collideMap_eq convexBorder_squareMap.1 rfl rfl, borderPolygon_squareMap, List.foldl_cons,
    collideBorder_of_missed hbottom, List.foldl_cons, collideBorder_of_touched hright, hcentre,
    List.foldl_cons, collideBorder_of_missed htop, List.foldl_cons, collideBorder_of_missed hleft,
    List.foldl_nil]

/-- From the middle of the right edge no other one is near. -/
theorem eq_rightEdge_of_mayTouch {e : Point ℝ × Point ℝ} (he : e ∈ squareMap.borderPolygon)
    (h : MayTouch ⟨1000, 0⟩ 30 e) : e = rightEdge := by
  obtain ⟨z, hz, htouch⟩ := h
  have hx := abs_le.mp ((abs_x_sub_le_distance _ z).trans hz)
  have hy := abs_le.mp ((abs_y_sub_le_distance _ z).trans hz)
  have hcross : |cross e.1 e.2 z| ≤ distance e.1 e.2 * 30 := abs_cross_le_of_collision htouch
  rw [distance_squareMap e he] at hcross
  have hle := (abs_le.mp hcross).2
  rw [borderPolygon_squareMap] at he
  simp only [List.mem_cons, List.not_mem_nil, or_false] at he
  rcases he with rfl | rfl | rfl | rfl
  · norm_num [cross, bottomEdge] at hle hx hy
    linarith
  · rfl
  · norm_num [cross, topEdge] at hle hx hy
    linarith
  · norm_num [cross, leftEdge] at hle hx hy
    linarith

theorem mapFits_rightEdge : MapFits squareMap ⟨1000, 0⟩ 30 0 where
  walls _ hwall := absurd hwall List.not_mem_nil
  obstacles _ ho := absurd ho List.not_mem_nil
  border e he _ hends := by
    have hlength := distance_squareMap e he
    rw [distance_eq_zero_iff.mpr hends] at hlength
    norm_num at hlength
  reach := by
    have hmiss : ∀ e ∈ squareMap.borderPolygon, e ≠ rightEdge →
        ∀ d, edgeReach ⟨1000, 0⟩ 30 d e = d :=
      fun e he hne d => if_neg fun hmay => hne (eq_rightEdge_of_mayTouch he hmay)
    have hright : edgeReach ⟨1000, 0⟩ 30 0 rightEdge ≤ 30 := by
      have hheight : triangleHeight ⟨1000, 0⟩ rightEdge.1 rightEdge.2 = 0 := by
        rw [triangleHeight_eq, cross_rightEdge]
        norm_num
      unfold edgeReach
      split_ifs <;> norm_num [hheight, Constants.playerRadius]
    have hcorner : ∀ e ∈ [bottomEdge, topEdge, leftEdge], e ≠ rightEdge := by
      intro e he hright
      have hx : e.1.x = 1000 ∧ e.2.x = 1000 := by rw [hright]; exact ⟨rfl, rfl⟩
      simp only [List.mem_cons, List.not_mem_nil, or_false] at he
      rcases he with rfl | rfl | rfl <;> norm_num [bottomEdge, topEdge, leftEdge] at hx
    simp only [List.forall_mem_cons] at hcorner
    rw [mapReach_eq rfl rfl, borderPolygon_squareMap]
    simp only [List.foldl_cons, List.foldl_nil]
    rw [hmiss bottomEdge (by simp [borderPolygon_squareMap]) hcorner.1,
      hmiss topEdge (by simp [borderPolygon_squareMap]) hcorner.2.1,
      hmiss leftEdge (by simp [borderPolygon_squareMap]) hcorner.2.2.1]
    exact hright

/-- Who is alone and has spawned at the right edge is held by this edge. -/
theorem pushesHeld_spawned : PushesHeld (spawned (1000, 0)) := by
  set start := (updatePositions (spawned (1000, 0))).players with hstart
  have hcircle : (start.val 0).toCircle = ⟨⟨1000, 0⟩, 30⟩ := by
    have hval := congrArg Player.advance (val_spawned (1000, 0))
    rw [show start.val 0 = _ from hval, advance_circle_newlySpawned]
    norm_num [drawnPoint]
  have hcentre : (start.val 0).centre = ⟨1000, 0⟩ := congrArg Circle.centre hcircle
  have hnobody : ∀ j, ¬ MayCollide start (fun _ => 30) 0 j :=
    fun j hj => hj.2.1 (List.mem_singleton.mp hj.1)
  have hcrowd : crowd start (fun _ => 30) 0 = 0 := by
    simp [crowd, hnobody]
  refine ⟨fun _ => 30, ⟨fun _ => by norm_num, fun k hk halive => .inr ?_⟩, fun k hlone => .inr ?_⟩
  · obtain rfl : k = 0 := List.mem_singleton.mp hk
    refine ⟨hk, halive, fun j hj => absurd hj (hnobody j),
      ⟨0, fun j hj => absurd hj (hnobody j)⟩, ?_⟩
    rw [← hstart, hcentre, hcrowd]
    exact mapFits_rightEdge
  · obtain rfl : k = 0 := List.mem_singleton.mp hlone.mem
    refine ⟨hcrowd, .inr fun e he f hf hmay hmayf => ?_⟩
    rw [← hstart, hcentre] at hmay hmayf
    rw [eq_rightEdge_of_mayTouch he hmay, eq_rightEdge_of_mayTouch hf hmayf]

theorem alive_inside_after_tick_spawned :
    ∃ g', (spawned (1000, 0)).step (.tick Rehash.front) = some g' ∧
      (g'.players.val 0).alive = true ∧ (g'.players.val 0).centre.toPlane ∈ squareMap.region := by
  obtain ⟨g', htick⟩ := Option.isSome_iff_exists.mp
    (tick_isSome (g := spawned (1000, 0)) convexBorder_squareMap.1 Rehash.front)
  have hreach : Lts.Reach Game.step StaysOnMap (Game.initial squareMap) (spawned (1000, 0)) := by
    refine (Lts.Reach.refl.tail (i := .connect Rehash.front 0) trivial rfl).tail
      (i := .spawn Rehash.front 0 (1000, 0)) ?_ (if_pos ?_)
    · exact mem_region_squareMap.mpr (by norm_num [drawnPoint])
    · exact drawAllowed_squareMap (by norm_num) (by norm_num)
  have hinside := alive_inside_after_tick squareMap convexPolygon_squareMap rfl rfl _ g' hreach
    Rehash.front pushesHeld_spawned htick 0
  obtain ⟨players, players', projectiles, hplayers, hloop, rfl⟩ := tick_eq_some.mp htick
  obtain ⟨rfl, -⟩ := Prod.mk.inj (Option.some.inj hloop)
  have hcentres := onlyCentres_checkPlayerCollisions hplayers
  have halive : (players.val 0).alive = true := (hcentres.alive 0).trans
    (congrArg (fun p => p.advance.alive) (val_spawned (1000, 0)))
  exact ⟨_, htick, halive, hinside (by rw [hcentres.1]; exact List.mem_singleton_self 0) halive⟩

/-! ## Two players at the right edge -/

/-- The player loop over two players who are alive: the first meets the second and the border, then
the second meets the first and the border. -/
theorem two_turns {m : GameMap ℝ} {players players' : UMap ℕ (Player ℝ F)} {k j : ℕ}
    (hkeys : players.keys = [k, j]) (hk : (players.val k).alive = true)
    (hj : (players.val j).alive = true) (h : checkPlayerCollisions m players = some players') :
    ∃ p q, collideMap m ((collidePlayers k players j).val k) = some p ∧
      collideMap m ((collidePlayers j ((collidePlayers k players j).set k p) k).val j) = some q ∧
      players'.val j = q := by
  unfold checkPlayerCollisions at h
  rw [hkeys, Lts.run_cons] at h
  obtain ⟨u, hu, hrest⟩ := Option.bind_eq_some_iff.mp h
  obtain ⟨v, hv, hend⟩ := Option.bind_eq_some_iff.mp hrest
  obtain rfl : v = players' := Option.some.inj hend
  have hcentres := onlyCentres_collidePlayer hu
  have hself : ∀ (i : ℕ) (w : UMap ℕ (Player ℝ F)), collidePlayers i w i = w :=
    fun i w => if_pos rfl
  rw [collidePlayer, if_neg (by simp [hk]), hkeys] at hu
  obtain ⟨p, hp, rfl⟩ := Option.map_eq_some_iff.mp hu
  have hj' := (hcentres.alive j).trans hj
  rw [collidePlayer, if_neg (by rw [hj']; decide), hcentres.1, hkeys] at hv
  obtain ⟨q, hq, rfl⟩ := Option.map_eq_some_iff.mp hv
  simp only [List.foldl_cons, List.foldl_nil, hself] at hp hq
  exact ⟨p, q, hp, hq, UMap.val_set_self _ _ _⟩

/-- A disc at the right edge is pushed by another one from the left. -/
theorem pushVector_axis {x y : ℝ} (h : x < y) :
    pushVector ⟨⟨x, 0⟩, 30⟩ ⟨⟨y, 0⟩, 30⟩ * halfOverlap ⟨⟨x, 0⟩, 30⟩ ⟨⟨y, 0⟩, 30⟩
      = ⟨-((60 - (y - x)) / 2), 0⟩ := by
  have hdistance : distance (⟨x, 0⟩ : Point ℝ) ⟨y, 0⟩ = y - x := by
    rw [distance_eq]
    show Real.sqrt ((y - x) ^ 2 + (0 - 0) ^ 2) = y - x
    rw [sub_self, zero_pow two_ne_zero, add_zero, Real.sqrt_sq (by linarith)]
  have hne : y - x ≠ 0 := by linarith
  unfold pushVector
  rw [halfOverlap, hdistance]
  apply Point.ext'
  · simp only [Point.mul_x, Point.div_x, Point.sub_x]
    field_simp
    ring
  · simp

/-- In the turn of player 1, who is next to player 0 at the right edge, both give way by 29.5. -/
theorem collidePlayers_edge {players : UMap ℕ (Player ℝ F)}
    (hone : (players.val 1).toCircle = ⟨⟨999, 0⟩, 30⟩)
    (hzero : (players.val 0).toCircle = ⟨⟨1000, 0⟩, 30⟩) :
    collidePlayers 1 players 0 = (players.set 1 ((players.val 1).moveTo ⟨969.5, 0⟩)).set 0
      ((players.val 0).moveTo ⟨1029.5, 0⟩) := by
  have hcontact :
      checkCollisionCircle (players.val 1).toCircle (players.val 0).toCircle = true := by
    rw [hone, hzero, checkCollisionCircle_iff, distance_sq]
    norm_num
  have hleft : (⟨999, 0⟩ : Point ℝ) + ⟨-((60 - (1000 - 999)) / 2), 0⟩ = ⟨969.5, 0⟩ := by
    apply Point.ext' <;> norm_num
  have hright : (⟨1000, 0⟩ : Point ℝ) - ⟨-((60 - (1000 - 999)) / 2), 0⟩ = ⟨1029.5, 0⟩ := by
    apply Point.ext' <;> norm_num
  rw [collidePlayers, if_neg (by decide), if_pos hcontact, moveAlongNormalPlayer_eq, hone, hzero,
    pushVector_axis (by norm_num)]
  simp only [hleft, hright]

/-- The first turn pushes player 0 across the edge, and its own border loop leaves it outside. -/
theorem outside_of_edge {players players' : UMap ℕ (Player ℝ F)} (hkeys : players.keys = [1, 0])
    (halive : (players.val 1).alive = true ∧ (players.val 0).alive = true)
    (hone : (players.val 1).toCircle = ⟨⟨999, 0⟩, 30⟩)
    (hzero : (players.val 0).toCircle = ⟨⟨1000, 0⟩, 30⟩)
    (h : checkPlayerCollisions squareMap players = some players') :
    (players'.val 0).centre.toPlane ∉ squareMap.region := by
  obtain ⟨p, q, hp, hq, hval⟩ := two_turns hkeys halive.1 halive.2 h
  rw [collidePlayers_edge hone hzero] at hp hq
  set left := (players.val 1).moveTo ⟨969.5, 0⟩
  set right := (players.val 0).moveTo ⟨1029.5, 0⟩
  have hleft : left.toCircle = ⟨⟨969.5, 0⟩, 30⟩ := congrArg (Circle.mk _) (congrArg Circle.r hone)
  have hright : right.toCircle = ⟨⟨1029.5, 0⟩, 30⟩ :=
    congrArg (Circle.mk _) (congrArg Circle.r hzero)
  -- player 1 is out of reach of the border, and of player 0 in the second turn
  obtain rfl : left = p := by
    rw [UMap.val_set_of_ne _ _ (by decide), UMap.val_set_self] at hp
    refine Option.some.inj ((collideMap_squareMap ?_).symm.trans hp)
    unfold FarFromSquare
    rw [hleft]
    norm_num
  have hapart : checkCollisionCircle right.toCircle left.toCircle = false := by
    rw [← Bool.not_eq_true, checkCollisionCircle_iff, hleft, hright, distance_sq]
    norm_num
  set moved := ((players.set 1 left).set 0 right).set 1 left with hmoved
  have hval0 : moved.val 0 = right := by
    rw [hmoved, UMap.val_set_of_ne _ _ (by decide), UMap.val_set_self]
  have hval1 : moved.val 1 = left := by rw [hmoved, UMap.val_set_self]
  have hsecond : collidePlayers 0 moved 1 = moved := by
    unfold collidePlayers
    rw [if_neg (by decide), hval0, hval1, hapart]
    rfl
  -- the border loop of player 0 takes the depth for one on the inner side
  rw [hsecond, hval0, collideMap_axis hright (by norm_num [abs_le])] at hq
  obtain rfl := Option.some.inj hq
  rw [hval, Player.moveTo_centre, mem_region_squareMap]
  norm_num

/-- **Pushed outside.** Two players spawn next to each other at the right edge, and one of them is
outside after the tick. -/
theorem pushed_outside : ¬ ∀ m : GameMap ℝ, m.ConvexPolygon → m.walls = [] → m.obstacles = [] →
    ∀ g g' : Game ℝ ℝ, Lts.Reach Game.step SpawnsInside (Game.initial m) g →
      ∀ ρ, g.step (.tick ρ) = some g' → ∀ k ∈ g'.players.keys, (g'.players.val k).alive = true →
        (g'.players.val k).centre.toPlane ∈ m.region := by
  intro hinside
  set g := pair (1000, 0) (999, 0)
  obtain ⟨g', htick⟩ := Option.isSome_iff_exists.mp
    (tick_isSome (g := g) convexBorder_squareMap.1 Rehash.front)
  have hreach : Lts.Reach Game.step SpawnsInside (Game.initial squareMap) g := by
    refine (((Lts.Reach.refl.tail (i := .connect Rehash.front 0) trivial rfl).tail
      (i := .connect Rehash.front 1) trivial rfl).tail
      (i := .spawn Rehash.front 0 (1000, 0)) ?_ (if_pos ?_)).tail
      (i := .spawn Rehash.front 1 (999, 0)) ?_ (if_pos ?_)
    · exact mem_region_squareMap.mpr (by norm_num [drawnPoint])
    · exact drawAllowed_squareMap (by norm_num) (by norm_num)
    · exact mem_region_squareMap.mpr (by norm_num [drawnPoint])
    · exact drawAllowed_squareMap (by norm_num) (by norm_num)
  have hend := hinside squareMap convexPolygon_squareMap rfl rfl g g' hreach
    Rehash.front htick 0
  obtain ⟨players, players', projectiles, hplayers, hloop, rfl⟩ := tick_eq_some.mp htick
  obtain ⟨rfl, -⟩ := Prod.mk.inj (Option.some.inj hloop)
  have hcentres := (onlyCentres_updatePositions g).trans
    (onlyCentres_checkPlayerCollisions hplayers)
  refine outside_of_edge rfl ⟨rfl, rfl⟩ ?_ ?_ hplayers
    (hend (by rw [hcentres.1]; decide) (hcentres.alive 0))
  · exact (advance_circle_newlySpawned 1 (999, 0)).trans (by norm_num [drawnPoint])
  · exact (advance_circle_newlySpawned 0 (1000, 0)).trans (by norm_num [drawnPoint])

end PRShooter
