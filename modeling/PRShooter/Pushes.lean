import PRShooter.ProjectilePath
import PRShooter.TriangleHeight

/-!
# The pushes over the reals

`calculateDisplacement` and `moveAlongNormal` in closed form, and what they achieve: two discs that
overlap are moved until they touch (`pushed_apart`), and a disc that meets an edge is moved along
the normal by the depth of the disc (`pushed_off_edge`).
-/

namespace PRShooter

variable {F : Type}

theorem length_sub (a b : Point ℝ) : (a - b).length = distance a b := by
  rw [distance_comm]
  rfl

/-! ## Two players -/

/-- Half of the overlap of two discs: what each of them gives way by. -/
noncomputable def halfOverlap (c1 c2 : Circle ℝ) : ℝ :=
  (c1.r + c2.r - distance c1.centre c2.centre) / (2 : ℕ)

/-- The unit vector from the second centre to the first. -/
noncomputable def pushVector (c1 c2 : Circle ℝ) : Point ℝ :=
  (c1.centre - c2.centre) / distance c1.centre c2.centre

theorem moveAlongNormalPlayer_eq (player1 player2 : Player ℝ F) :
    moveAlongNormalPlayer player1 player2 =
      (player1.moveTo (player1.centre
          + pushVector player1.toCircle player2.toCircle
            * halfOverlap player1.toCircle player2.toCircle),
        player2.moveTo (player2.centre
          - pushVector player1.toCircle player2.toCircle
            * halfOverlap player1.toCircle player2.toCircle)) := by
  have hvector : (calculateDisplacementCircle player1.toCircle player2.toCircle).1
      = pushVector player1.toCircle player2.toCircle := by
    rw [calculateDisplacementCircle, length_sub, pushVector]
  have hhalf : (calculateDisplacementCircle player1.toCircle player2.toCircle).2 / (2 : ℕ)
      = halfOverlap player1.toCircle player2.toCircle := by
    unfold calculateDisplacementCircle
    rw [halfOverlap]
  refine Prod.ext (congrArg player1.moveTo ?_) (congrArg player2.moveTo ?_)
  · rw [hvector, hhalf]
  · rw [hvector, hhalf]
    apply Point.ext' <;> simp <;> ring

/-- Discs that the test reports overlap. -/
theorem halfOverlap_pos {c1 c2 : Circle ℝ} (hr : 0 ≤ c1.r + c2.r)
    (h : checkCollisionCircle c1 c2 = true) : 0 < halfOverlap c1 c2 := by
  rw [checkCollisionCircle_iff] at h
  have hlt : distance c1.centre c2.centre < c1.r + c2.r := by
    refine lt_of_pow_lt_pow_left₀ 2 hr (h.trans ?_)
    norm_num
  rw [halfOverlap]
  linarith

/-- Two points moved away from each other along the line through them. -/
theorem distance_apart (a b : Point ℝ) {s t : ℝ} (h : 0 ≤ 1 + s + t) :
    distance (a + (a - b) * s) (b - (a - b) * t) = (1 + s + t) * distance a b := by
  have hsq : ((b - (a - b) * t).x - (a + (a - b) * s).x) ^ 2
      + ((b - (a - b) * t).y - (a + (a - b) * s).y) ^ 2
        = (1 + s + t) ^ 2 * ((b.x - a.x) ^ 2 + (b.y - a.y) ^ 2) := by
    simp only [Point.add_x, Point.add_y, Point.sub_x, Point.sub_y, Point.mul_x, Point.mul_y]
    ring
  rw [distance_eq, distance_eq, hsq, Real.sqrt_mul (sq_nonneg _), Real.sqrt_sq h]

/-- How far a point is moved. -/
theorem distance_moved (a v : Point ℝ) (t : ℝ) : distance a (a + v * t) = |t| * v.length := by
  have hsq : ((a + v * t).x - a.x) ^ 2 + ((a + v * t).y - a.y) ^ 2 = t ^ 2 * (v.x ^ 2 + v.y ^ 2) := by
    simp only [Point.add_x, Point.add_y, Point.mul_x, Point.mul_y]
    ring
  unfold Point.length
  rw [distance_eq, hsq, Real.sqrt_mul (sq_nonneg t), Real.sqrt_sq_eq_abs, square, square, sqrt_eq,
    sq, sq]

theorem pushVector_mul (c1 c2 : Circle ℝ) (l : ℝ) :
    pushVector c1 c2 * l = (c1.centre - c2.centre) * (l / distance c1.centre c2.centre) := by
  unfold pushVector
  apply Point.ext' <;> simp only [Point.mul_x, Point.mul_y, Point.div_x, Point.div_y] <;> ring

/-- Discs that just touch do not collide. -/
theorem checkCollisionCircle_of_touching {c1 c2 : Circle ℝ}
    (h : distance c1.centre c2.centre = c1.r + c2.r) : checkCollisionCircle c1 c2 = false := by
  rw [← Bool.not_eq_true, checkCollisionCircle_iff, h, not_lt]
  norm_num

/-- Two players have been moved until they touch: each by the same distance along the line of
centres, away from the other. -/
structure PushedApart (player1 player2 moved1 moved2 : Player ℝ F) : Prop where
  touching : distance moved1.centre moved2.centre = player1.r + player2.r
  midpoint : moved1.centre.lerp moved2.centre (1 / 2) = player1.centre.lerp player2.centre (1 / 2)
  away : ∃ t : ℝ, 0 < t ∧ moved1.centre = player1.centre + (player1.centre - player2.centre) * t ∧
    moved2.centre = player2.centre - (player1.centre - player2.centre) * t
  sameWay : distance player1.centre moved1.centre = distance player2.centre moved2.centre
  clear : checkCollisionCircle moved1.toCircle moved2.toCircle = false
  clear' : checkCollisionCircle moved2.toCircle moved1.toCircle = false

theorem pushedApart_of_collision {player1 player2 : Player ℝ F} (hr1 : 0 < player1.r)
    (hr2 : 0 < player2.r) (hne : player1.centre ≠ player2.centre)
    (hcollision : checkCollisionCircle player1.toCircle player2.toCircle = true) :
    PushedApart player1 player2 (moveAlongNormalPlayer player1 player2).1
      (moveAlongNormalPlayer player1 player2).2 := by
  have hd : 0 < distance player1.centre player2.centre := distance_pos hne
  have hhalf : 0 < halfOverlap player1.toCircle player2.toCircle :=
    halfOverlap_pos (by linarith) hcollision
  set t := halfOverlap player1.toCircle player2.toCircle / distance player1.centre player2.centre
    with ht
  have htpos : 0 < t := div_pos hhalf hd
  have hmoved : moveAlongNormalPlayer player1 player2 =
      (player1.moveTo (player1.centre + (player1.centre - player2.centre) * t),
        player2.moveTo (player2.centre - (player1.centre - player2.centre) * t)) := by
    rw [moveAlongNormalPlayer_eq, pushVector_mul]
  have htouching : distance (player1.centre + (player1.centre - player2.centre) * t)
      (player2.centre - (player1.centre - player2.centre) * t) = player1.r + player2.r := by
    have htwice : 2 * (t * distance player1.centre player2.centre)
        = player1.r + player2.r - distance player1.centre player2.centre := by
      rw [ht, div_mul_cancel₀ _ hd.ne', halfOverlap]
      push_cast
      ring
    rw [distance_apart _ _ (by linarith)]
    linarith
  have hback : player2.centre - (player1.centre - player2.centre) * t
      = player2.centre + (player1.centre - player2.centre) * -t := by
    apply Point.ext' <;> simp <;> ring
  rw [hmoved]
  refine ⟨htouching, ?_, ⟨t, htpos, rfl, rfl⟩, ?_, checkCollisionCircle_of_touching htouching, ?_⟩
  · apply Point.ext' <;> simp [Point.lerp] <;> ring
  · show distance _ (player1.centre + _ * t) = distance _ (player2.centre - _ * t)
    rw [hback, distance_moved, distance_moved, abs_neg]
  · refine checkCollisionCircle_of_touching ?_
    rw [distance_comm, add_comm]
    exact htouching

/-! ## A player and an obstacle -/

/-- The obstacle stays where it is, and the player is moved until it touches it. -/
theorem moveAlongNormalCircle_touching {player : Player ℝ F} {object : Circle ℝ}
    (hr : 0 ≤ player.r + object.r) (hne : player.centre ≠ object.centre)
    (hcollision : checkCollisionCircle player.toCircle object = true) :
    distance (moveAlongNormalCircle player object).centre object.centre = player.r + object.r := by
  have hd : 0 < distance player.centre object.centre := distance_pos hne
  have hhalf : 0 < halfOverlap player.toCircle object := halfOverlap_pos hr hcollision
  set t := (player.r + object.r - distance player.centre object.centre)
    / distance player.centre object.centre with ht
  have htd : t * distance player.centre object.centre
      = player.r + object.r - distance player.centre object.centre := div_mul_cancel₀ _ hd.ne'
  have htpos : 0 ≤ t := by
    unfold halfOverlap at hhalf
    refine div_nonneg ?_ hd.le
    exact ((div_pos_iff_of_pos_right (by norm_num)).mp hhalf).le
  have hmoved : (moveAlongNormalCircle player object).centre
      = player.centre + (player.centre - object.centre) * t := by
    show player.centre + (player.centre - object.centre) / (player.centre - object.centre).length
      * (player.r + object.r - distance player.centre object.centre) = _
    rw [length_sub]
    exact congrArg _ (pushVector_mul player.toCircle object _)
  have hstays : object.centre - (player.centre - object.centre) * (0 : ℝ) = object.centre := by
    apply Point.ext' <;> simp
  have happart := distance_apart player.centre object.centre (s := t) (t := 0) (by linarith)
  rw [hstays] at happart
  rw [hmoved, happart]
  linarith

/-! ## The pushes of discs -/

/-- **Discs.** Two players that collide are moved apart until they touch, and a visit of the pair in
the other order does nothing then. A player that collides with an obstacle is moved until it touches
it. -/
theorem pushed_apart :
    (∀ player1 player2 : Player ℝ F, 0 < player1.r → 0 < player2.r →
      player1.centre ≠ player2.centre →
      checkCollisionCircle player1.toCircle player2.toCircle = true →
        PushedApart player1 player2 (moveAlongNormalPlayer player1 player2).1
          (moveAlongNormalPlayer player1 player2).2 ∧
        ∀ (players : UMap ℕ (Player ℝ F)) (k j : ℕ), j ≠ k → players.val k = player1 →
          players.val j = player2 →
            collidePlayers j (collidePlayers k players j) k = collidePlayers k players j) ∧
    ∀ (player : Player ℝ F) (object : Circle ℝ), 0 < player.r → 0 < object.r →
      player.centre ≠ object.centre → checkCollisionCircle player.toCircle object = true →
        let moved := moveAlongNormalCircle player object
        distance moved.centre object.centre = player.r + object.r ∧
          checkCollisionCircle moved.toCircle object = false ∧
            checkCollisionCircle object moved.toCircle = false := by
  refine ⟨fun player1 player2 hr1 hr2 hne hcollision => ?_,
    fun player object hr1 hr2 hne hcollision => ?_⟩
  · have happart := pushedApart_of_collision hr1 hr2 hne hcollision
    refine ⟨happart, fun players k j hjk hk hj => ?_⟩
    have hfirst : collidePlayers k players j =
        (players.set k (moveAlongNormalPlayer player1 player2).1).set j
          (moveAlongNormalPlayer player1 player2).2 := by
      unfold collidePlayers
      rw [if_neg hjk, hk, hj, if_pos hcollision]
    rw [hfirst]
    unfold collidePlayers
    rw [if_neg (Ne.symm hjk), UMap.val_set_self, UMap.val_set_of_ne _ _ (Ne.symm hjk),
      UMap.val_set_self, happart.clear']
    exact if_neg Bool.false_ne_true
  · have htouching := moveAlongNormalCircle_touching (by linarith) hne hcollision
    refine ⟨htouching, checkCollisionCircle_of_touching htouching, ?_⟩
    refine checkCollisionCircle_of_touching ?_
    rw [distance_comm, add_comm]
    exact htouching

/-- Two players of radius 30, one of them 30 to the right of the other. -/
theorem pushed_apart_overlapping :
    let player1 : Player ℝ ℝ := (Player.new 0).moveTo ⟨(0 : ℕ), (0 : ℕ)⟩
    let player2 : Player ℝ ℝ := (Player.new 1).moveTo ⟨(30 : ℕ), (0 : ℕ)⟩
    PushedApart player1 player2 (moveAlongNormalPlayer player1 player2).1
      (moveAlongNormalPlayer player1 player2).2 := by
  intro player1 player2
  have hradius : (0 : ℝ) < (30 : ℕ) := by norm_num
  refine ((pushed_apart.1 player1 player2 hradius hradius ?_ ?_).1)
  · intro h
    have hx : ((0 : ℕ) : ℝ) = (30 : ℕ) := congrArg Point.x h
    norm_num at hx
  · rw [checkCollisionCircle_iff, distance_sq]
    show (((30 : ℕ) : ℝ) - (0 : ℕ)) ^ 2 + (((0 : ℕ) : ℝ) - (0 : ℕ)) ^ 2
      < (((30 : ℕ) : ℝ) + (30 : ℕ)) ^ 2 - 1.0e-10
    norm_num

/-! ## A player and an edge -/

/-- The push off the line through `a` and `b`: along the normal, by the depth of the disc. The depth
is taken from the distance to the line, on whichever side of it the centre is. -/
noncomputable def edgePush (c : Circle ℝ) (a b : Point ℝ) : Point ℝ :=
  (⟨-(b.y - a.y), b.x - a.x⟩ : Point ℝ) / distance a b
    * (c.r - |cross a b c.centre| / distance a b)

/-- The normal of an edge is as long as the edge. -/
theorem length_normal (a b : Point ℝ) :
    (⟨-(b.y - a.y), b.x - a.x⟩ : Point ℝ).length = distance a b := by
  simp only [Point.length, distance, square]
  congr 1
  ring

theorem moveAlongNormalSegment_eq (player : Player ℝ F) (a b : Point ℝ) :
    moveAlongNormalSegment player a b =
      player.moveTo (player.centre + edgePush player.toCircle a b) := by
  refine congrArg player.moveTo ?_
  simp only [calculateDisplacementSegment, length_normal, triangleHeight_eq, edgePush]

/-- The signed distance from the directed line through `a` and `b`: positive on the side of the
normal `(-(b.y - a.y), b.x - a.x)`. -/
noncomputable def signedDistance (a b z : Point ℝ) : ℝ := cross a b z / distance a b

theorem abs_signedDistance (a b z : Point ℝ) :
    |signedDistance a b z| = |cross a b z| / distance a b := by
  unfold signedDistance
  rw [abs_div, abs_of_nonneg (distance_nonneg a b)]

/-- Without its sign it is the height that `calculateDisplacement` takes. -/
theorem triangleHeight_eq_abs_signedDistance (z a b : Point ℝ) :
    triangleHeight z a b = |signedDistance a b z| := by
  rw [triangleHeight_eq, abs_signedDistance]

/-- And so the distance from the line. -/
theorem abs_signedDistance_eq_infDist {a b : Point ℝ} (hab : a ≠ b) (z : Point ℝ) :
    |signedDistance a b z| = Metric.infDist z.toPlane (line a b) := by
  rw [← triangleHeight_eq_abs_signedDistance, triangleHeight_eq_infDist z hab]

theorem edgePush_eq (c : Circle ℝ) (a b : Point ℝ) :
    edgePush c a b = (⟨-(b.y - a.y), b.x - a.x⟩ : Point ℝ)
      * ((c.r - |signedDistance a b c.centre|) / distance a b) := by
  unfold edgePush
  rw [abs_signedDistance]
  apply Point.ext' <;> simp only [Point.mul_x, Point.mul_y, Point.div_x, Point.div_y] <;> ring

/-- A step along the normal adds to the signed distance. -/
theorem signedDistance_add_normal {a b : Point ℝ} (hab : a ≠ b) (z : Point ℝ) (l : ℝ) :
    signedDistance a b (z + (⟨-(b.y - a.y), b.x - a.x⟩ : Point ℝ) * (l / distance a b))
      = signedDistance a b z + l := by
  have hd : 0 < distance a b := distance_pos hab
  have hcross : cross a b (z + (⟨-(b.y - a.y), b.x - a.x⟩ : Point ℝ) * (l / distance a b))
      = cross a b z + distance a b ^ 2 * (l / distance a b) := by
    rw [distance_sq]
    simp only [cross, Point.add_x, Point.add_y, Point.mul_x, Point.mul_y]
    ring
  unfold signedDistance
  rw [hcross, add_div, sq, mul_assoc, mul_div_cancel₀ _ hd.ne', mul_div_cancel_left₀ _ hd.ne']

/-- A step along the normal leaves the projection on the line where it is. -/
theorem closestOnLine_add_normal (c : Circle ℝ) (a b : Point ℝ) (t : ℝ) :
    closestOnLine { c with centre := c.centre + (⟨-(b.y - a.y), b.x - a.x⟩ : Point ℝ) * t } a b
      = closestOnLine c a b := by
  have hdot : dot { c with centre := c.centre + (⟨-(b.y - a.y), b.x - a.x⟩ : Point ℝ) * t } a b
      = dot c a b := by
    unfold dot
    congr 1
    simp only [Point.add_x, Point.add_y, Point.mul_x, Point.mul_y]
    ring
  rw [closestOnLine_eq, closestOnLine_eq, hdot]

/-- **Edges.** A player that meets an edge is moved along its normal, by a length that is never
negative: from the signed distance `s` to `s + r - |s|`. A centre on the inner side ends at the
distance `r`, and one on the outer side that is nearer than `r` is moved inwards. -/
theorem pushed_off_edge (player : Player ℝ F) (P1 P2 : Point ℝ) (hne : P1 ≠ P2)
    (hcollision : checkCollisionSegment player.toCircle P1 P2 = true) :
    let s := signedDistance P1 P2 player.centre
    let moved := moveAlongNormalSegment player P1 P2
    0 ≤ (calculateDisplacementSegment player.toCircle P1 P2).2 ∧
      signedDistance P1 P2 moved.centre = s + player.r - |s| ∧
      closestOnLine moved.toCircle P1 P2 = closestOnLine player.toCircle P1 P2 ∧
      (0 ≤ s → |signedDistance P1 P2 moved.centre| = player.r) ∧
      (s < 0 → |s| < player.r → s < signedDistance P1 P2 moved.centre) := by
  intro s moved
  have hd : 0 < distance P1 P2 := distance_pos hne
  have hreach : |s| ≤ player.r := by
    have hcross := abs_cross_le_of_collision hcollision
    rw [abs_signedDistance, div_le_iff₀ hd, mul_comm]
    exact hcross
  have hcentre : moved.centre = player.centre
      + (⟨-(P2.y - P1.y), P2.x - P1.x⟩ : Point ℝ) * ((player.r - |s|) / distance P1 P2) := by
    show (moveAlongNormalSegment player P1 P2).centre = _
    rw [moveAlongNormalSegment_eq, Player.moveTo_centre, edgePush_eq]
  have hsigned : signedDistance P1 P2 moved.centre = s + player.r - |s| := by
    rw [hcentre, signedDistance_add_normal hne]
    ring
  refine ⟨?_, hsigned, ?_, fun hs => ?_, fun hs hnear => ?_⟩
  · show 0 ≤ player.r - triangleHeight player.centre P1 P2
    rw [triangleHeight_eq_abs_signedDistance]
    exact sub_nonneg.mpr hreach
  · have hmoved : moved.toCircle = { player.toCircle with centre := moved.centre } := rfl
    rw [hmoved, hcentre]
    exact closestOnLine_add_normal player.toCircle P1 P2 _
  · rw [hsigned, abs_of_nonneg hs, add_sub_cancel_left]
    exact abs_of_nonneg ((abs_nonneg s).trans hreach)
  · rw [hsigned]
    linarith

/-- A player of radius 30 whose centre has crossed the right edge of a square by 10. -/
theorem pushed_off_edge_outside :
    let player : Player ℝ ℝ := (Player.new 0).moveTo ⟨(10 : ℕ), (0 : ℕ)⟩
    let P1 : Point ℝ := ⟨(0 : ℕ), -(100 : ℕ)⟩
    let P2 : Point ℝ := ⟨(0 : ℕ), (100 : ℕ)⟩
    signedDistance P1 P2 player.centre
      < signedDistance P1 P2 (moveAlongNormalSegment player P1 P2).centre := by
  intro player P1 P2
  have hne : P1 ≠ P2 := by
    intro h
    have hy : -((100 : ℕ) : ℝ) = (100 : ℕ) := congrArg Point.y h
    norm_num at hy
  have hlength : distance P1 P2 = 200 := by
    have hsq : (((0 : ℕ) : ℝ) - (0 : ℕ)) ^ 2 + (((100 : ℕ) : ℝ) - -(100 : ℕ)) ^ 2 = 200 ^ 2 := by
      norm_num
    rw [distance_eq, hsq, Real.sqrt_sq (by norm_num)]
  have hs : signedDistance P1 P2 player.centre = -10 := by
    unfold signedDistance
    rw [hlength]
    show ((((0 : ℕ) : ℝ) - (0 : ℕ)) * ((0 : ℕ) - -(100 : ℕ))
      - ((100 : ℕ) - -(100 : ℕ)) * ((10 : ℕ) - (0 : ℕ))) / 200 = -10
    norm_num
  have hcollision : checkCollisionSegment player.toCircle P1 P2 = true := by
    refine circleLineSegmentCollision_of_near (t := 1 / 2) (by norm_num) (by norm_num) ?_
    have hsq : (((10 : ℕ) : ℝ) - ((0 : ℕ) + 1 / 2 * ((0 : ℕ) - (0 : ℕ)))) ^ 2
        + (((0 : ℕ) : ℝ) - (-(100 : ℕ) + 1 / 2 * ((100 : ℕ) - -(100 : ℕ)))) ^ 2 = 10 ^ 2 := by
      norm_num
    show distance (P1.lerp P2 (1 / 2)) player.centre ≤ ((30 : ℕ) : ℝ)
    rw [distance_eq]
    show Real.sqrt ((((10 : ℕ) : ℝ) - ((0 : ℕ) + 1 / 2 * ((0 : ℕ) - (0 : ℕ)))) ^ 2
        + (((0 : ℕ) : ℝ) - (-(100 : ℕ) + 1 / 2 * ((100 : ℕ) - -(100 : ℕ)))) ^ 2) ≤ _
    rw [hsq, Real.sqrt_sq (by norm_num)]
    norm_num
  refine (pushed_off_edge player P1 P2 hne hcollision).2.2.2.2 ?_ ?_
  · rw [hs]
    norm_num
  · rw [hs]
    show |(-10 : ℝ)| < ((30 : ℕ) : ℝ)
    norm_num

end PRShooter
