import PRShooter.Border

/-!
# No tunnelling

A projectile moves by 1.5 in a tick and has radius 4. What its path touches is therefore still
within its radius at the end of the path, where the tests find it.
-/

namespace PRShooter

/-! ## The step of a projectile -/

theorem advance_centre (p : Projectile ℝ) :
    p.advance.centre = ⟨p.centre.x + p.velocity.x * 1.5, p.centre.y + p.velocity.y * 1.5⟩ := by
  apply Point.ext' <;>
    simp only [Projectile.advance, Point.add_x, Point.add_y, Point.mul_x, Point.mul_y,
      Constants.projectileSpeed, Constants.doubleTimestep] <;> norm_num <;> ring

theorem length_sq (v : Point ℝ) : v.length ^ 2 = v.x ^ 2 + v.y ^ 2 := by
  rw [Point.length, sqrt_eq, square, square,
    Real.sq_sqrt (add_nonneg (mul_self_nonneg _) (mul_self_nonneg _)), sq, sq]

/-- A step of a unit velocity is 1.5 long. -/
theorem distance_advance {p : Projectile ℝ} (hunit : p.velocity.length = 1) :
    distance p.centre p.advance.centre = 1.5 := by
  have hsq := length_sq p.velocity
  have hsquare : (p.advance.centre.x - p.centre.x) ^ 2 + (p.advance.centre.y - p.centre.y) ^ 2
      = (1.5 : ℝ) ^ 2 := by
    rw [advance_centre]
    nlinarith
  rw [distance_eq, hsquare, Real.sqrt_sq (by norm_num)]

/-- Every point of the path is within 1.5 of its end. -/
theorem dist_end_le {p : Projectile ℝ} (hunit : p.velocity.length = 1) {z : ℂ}
    (hz : z ∈ edgeSet (p.centre, p.advance.centre)) : dist z p.advance.centre.toPlane ≤ 1.5 := by
  exact (dist_le_of_mem_edgeSet hz).trans (distance_advance hunit).le

/-- A player who has spawned at a drawn place and looks to the right. -/
def newlySpawned (playerId : ℕ) (draw : ℤ × ℤ) : Player ℝ ℝ :=
  { Player.new playerId with alive := true, health := 100, centre := drawnPoint draw }

theorem projectile_newlySpawned (playerId : ℕ) (draw : ℤ × ℤ) :
    (newlySpawned playerId draw).projectile playerId =
      Projectile.new playerId ⟨(draw.1 : ℝ) + 30, (draw.2 : ℝ)⟩ ⟨1, 0⟩ := by
  have hdirection : (newlySpawned playerId draw).direction = ⟨1, 0⟩ := by
    apply Point.ext' <;> simp [newlySpawned, Player.direction, Player.new, cos_eq, sin_eq]
  have hahead : (newlySpawned playerId draw).centre
      + (⟨1, 0⟩ : Point ℝ) * (newlySpawned playerId draw).r
        = ⟨(draw.1 : ℝ) + 30, (draw.2 : ℝ)⟩ := by
    apply Point.ext' <;> simp [newlySpawned, drawnPoint, Player.new, Constants.playerRadius]
  unfold Player.projectile
  rw [hdirection, hahead]

/-- The disc of that projectile after its first step. -/
theorem advance_newlySpawned (playerId : ℕ) (draw : ℤ × ℤ) :
    ((newlySpawned playerId draw).projectile playerId).advance.toCircle =
      ⟨⟨(draw.1 : ℝ) + 31.5, (draw.2 : ℝ)⟩, 4⟩ := by
  have hcentre := advance_centre ((newlySpawned playerId draw).projectile playerId)
  have hr : ((newlySpawned playerId draw).projectile playerId).advance.r = 4 := by
    norm_num [Projectile.advance, Player.projectile, Projectile.new, Constants.projectileRadius]
  rw [← hr]
  refine congrArg (Circle.mk · _) (hcentre.trans ?_)
  rw [projectile_newlySpawned]
  apply Point.ext' <;> norm_num [Projectile.new]
  ring

/-- Who has not asked to move stays in place. -/
theorem player_advance_newlySpawned (playerId : ℕ) (draw : ℤ × ℤ) :
    (newlySpawned playerId draw).advance = newlySpawned playerId draw := by
  obtain ⟨c, hc⟩ := (newlySpawned playerId draw).moved_advance
  have hcentre : (newlySpawned playerId draw).advance.centre
      = (newlySpawned playerId draw).centre := by
    apply Point.ext' <;> simp [newlySpawned, Player.advance, Player.new]
  rw [hc, Player.moveTo_centre] at hcentre
  rw [hc, hcentre, Player.moveTo_self]

theorem circle_newlySpawned (playerId : ℕ) (draw : ℤ × ℤ) :
    (newlySpawned playerId draw).toCircle = ⟨drawnPoint draw, 30⟩ := by
  norm_num [newlySpawned, Player.new, Constants.playerRadius]

theorem advance_circle_newlySpawned (playerId : ℕ) (draw : ℤ × ℤ) :
    (newlySpawned playerId draw).advance.toCircle = ⟨drawnPoint draw, 30⟩ := by
  rw [player_advance_newlySpawned, circle_newlySpawned]

/-! ## What the tests find -/

theorem checkCollisionRectangle_of_edge {c : Circle ℝ} {wall : Rectangle ℝ}
    {e : Point ℝ × Point ℝ} (he : e ∈ wall.edges)
    (hhit : circleLineSegmentCollision c e.1 e.2 = true) :
    checkCollisionRectangle c wall = true := by
  simp only [Rectangle.edges, List.mem_cons, List.not_mem_nil, or_false] at he
  unfold checkCollisionRectangle
  rcases he with rfl | rfl | rfl | rfl <;> simp [hhit]

/-- A disc of radius 4 within 1.5 of another disc overlaps it by more than the tolerance. -/
theorem checkCollisionCircle_of_near {c o : Circle ℝ} {z : ℂ} (hr : c.r = 4)
    (hz : dist z c.centre.toPlane ≤ 1.5) (ho : dist z o.centre.toPlane ≤ o.r) :
    checkCollisionCircle c o = true := by
  rw [checkCollisionCircle_iff, ← dist_toPlane, hr]
  have htriangle := dist_triangle_left c.centre.toPlane o.centre.toPlane z
  have hnonneg := dist_nonneg (x := z) (y := o.centre.toPlane)
  have hle : dist c.centre.toPlane o.centre.toPlane ≤ 1.5 + o.r := by linarith
  have hsq := pow_le_pow_left₀ (dist_nonneg (x := c.centre.toPlane)) hle 2
  have hor : 0 ≤ o.r := hnonneg.trans ho
  norm_num at hsq ⊢
  nlinarith

/-! ## Survivors -/

/-- The straight path from `a` to `b` meets no border edge, no edge of a wall and no obstacle
disc. -/
def PathClear (m : GameMap ℝ) (a b : Point ℝ) : Prop :=
  ∀ z ∈ edgeSet (a, b),
    (∀ e ∈ m.borderPolygon, z ∉ edgeSet e) ∧
    (∀ wall ∈ m.walls, ∀ e ∈ wall.edges, z ∉ edgeSet e) ∧
    ∀ o ∈ m.obstacles, o.r < dist z o.centre.toPlane

theorem pathClear_of_clear {m : GameMap ℝ} {p : Projectile ℝ} (hclear : p.advance.Clear m)
    (hr : p.r = 4) (hunit : p.velocity.length = 1) : PathClear m p.centre p.advance.centre := by
  obtain ⟨hobject, edges, hedges, hborder⟩ := hclear
  simp only [Projectile.hitsObject, Bool.or_eq_false_iff, List.any_eq_false] at hobject
  have hr' : p.advance.r = 4 := hr
  intro z hz
  have hnear := dist_end_le hunit hz
  have hreach : ∀ e, z ∈ edgeSet e →
      circleLineSegmentCollision p.advance.toCircle e.1 e.2 = true := fun e he =>
    circleLineSegmentCollision_of_mem_edgeSet he (by rw [hr']; linarith)
  refine ⟨fun e he hze => ?_, fun wall hwall e he hze => ?_, fun o ho => ?_⟩
  · have hne : m.borders ≠ [] := by
      rintro hnil
      simp [GameMap.borderPolygon, hnil] at he
    obtain rfl : m.borderPolygon = edges := Option.some.inj ((borderEdges_eq hne).symm.trans hedges)
    have hmiss := hborder e he
    unfold checkCollisionSegment at hmiss
    rw [hreach e hze] at hmiss
    cases hmiss
  · exact hobject.1 wall hwall (checkCollisionRectangle_of_edge he (hreach e hze))
  · by_contra hdisc
    exact hobject.2 o ho (checkCollisionCircle_of_near hr' hnear (not_lt.mp hdisc))

/-- **No tunnelling.** On a map with a border point every tick returns, and each projectile it
leaves, if it has the radius of a projectile and unit velocity, has moved along a path that meets
no border edge, no edge of a wall and no obstacle. -/
theorem survivors_path_clear (g : Game ℝ ℝ) (hborder : g.gameMap.borders ≠ []) (ρ : Rehash ℕ) :
    ∃ g', tick ρ g = some g' ∧
      ∀ q ∈ g'.projectiles, ∃ p ∈ g.projectiles, q = p.advance ∧
        (p.r = Constants.projectileRadius → p.velocity.length = 1 →
          PathClear g.gameMap p.centre q.centre) := by
  obtain ⟨g', hg'⟩ := Option.isSome_iff_exists.mp (tick_isSome hborder ρ)
  obtain ⟨hsub, hclear⟩ := clear_of_tick hg'
  refine ⟨g', hg', fun q hq => ?_⟩
  obtain ⟨p, hp, rfl⟩ := List.mem_map.mp (hsub.subset hq)
  refine ⟨p, hp, rfl, fun hr hunit => ?_⟩
  refine pathClear_of_clear (hclear _ hq) (hr.trans ?_) hunit
  norm_num [Constants.projectileRadius]

/-! ## A flight over the square -/

/-- One projectile in the middle of the square. -/
def flight : Game ℝ ℝ :=
  { gameMap := squareMap, players := UMap.empty (Player.new 0),
    projectiles := [Projectile.new 0 0 ⟨1, 0⟩] }

/-- The projectile of `flight` survives its tick. -/
theorem tick_flight :
    tick Rehash.front flight = some (updatePositions flight) := by
  have hcentre := advance_centre (Projectile.new 0 0 ⟨1, 0⟩)
  have hclear : (Projectile.new 0 0 ⟨1, 0⟩ : Projectile ℝ).advance.Clear squareMap := by
    refine clear_squareMap ?_
    unfold FarFromSquare
    rw [hcentre]
    norm_num [Projectile.advance, Projectile.new, Constants.projectileRadius]
  rw [tick_eq_some]
  exact ⟨_, _, _, rfl, projectileLoop_cons_eq (checkProjectileCollisions_of_clear hclear rfl) rfl,
    rfl⟩

theorem survivors_path_clear_flight :
    ∃ g', tick Rehash.front flight = some g' ∧ g'.projectiles.length = 1 ∧
      ∀ q ∈ g'.projectiles, PathClear squareMap 0 q.centre := by
  obtain ⟨g', hg', hpaths⟩ :=
    survivors_path_clear flight convexBorder_squareMap.1 Rehash.front
  refine ⟨g', hg', ?_, fun q hq => ?_⟩
  · obtain rfl := Option.some.inj (tick_flight.symm.trans hg')
    rfl
  · obtain ⟨p, hp, rfl, hpath⟩ := hpaths q hq
    obtain rfl := List.mem_singleton.mp hp
    exact hpath rfl (by norm_num [Projectile.new, Point.length, square, sqrt_eq])

end PRShooter
