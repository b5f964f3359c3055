import PRShooter.Divisors

/-!
# How far the map pushes

Where the walls, the obstacles and the border leave a player is known only when all loops have run.
`mapReach` bounds it from what is there before: the place `c` of the player and the objects it may
touch. Every push is as long as the disc is deep, and a player within `d` of `c` is at most by `d`
deeper than one at `c`.
-/

namespace PRShooter

variable {F : Type} {m : GameMap ℝ} {c : Point ℝ} {r d : ℝ}

/-! ## What a player may touch -/

/-- There is a place within `r` of `c` at which a player touches the edge. -/
def MayTouch (c : Point ℝ) (r : ℝ) (e : Point ℝ × Point ℝ) : Prop :=
  ∃ z, distance c z ≤ r ∧ checkCollisionSegment ⟨z, Constants.playerRadius⟩ e.1 e.2 = true

/-- There is a place within `r` of `c` at which a player collides with the obstacle. -/
def MayMeet (c : Point ℝ) (r : ℝ) (obstacle : Circle ℝ) : Prop :=
  ∃ z, distance c z ≤ r ∧ checkCollisionCircle ⟨z, Constants.playerRadius⟩ obstacle = true

section Reach

open Classical in
/-- How far from `c` the test against an edge may leave a player that is within `d` of it. -/
noncomputable def edgeReach (c : Point ℝ) (r d : ℝ) (e : Point ℝ × Point ℝ) : ℝ :=
  if MayTouch c r e then d + (|Constants.playerRadius - triangleHeight c e.1 e.2| + d) else d

open Classical in
/-- How far from `c` the test against an obstacle may leave a player that is within `d` of it. -/
noncomputable def obstacleReach (c : Point ℝ) (r d : ℝ) (obstacle : Circle ℝ) : ℝ :=
  if MayMeet c r obstacle then
    d + (|Constants.playerRadius + obstacle.r - distance c obstacle.centre| + d)
  else d

/-- How far from `c` the tests against the edges of a wall may leave a player. -/
noncomputable def wallReach (c : Point ℝ) (r d : ℝ) (wall : Rectangle ℝ) : ℝ :=
  wall.edges.foldl (edgeReach c r) d

/-- How far from `c` the wall, obstacle and border loops may leave a player. -/
noncomputable def mapReach (m : GameMap ℝ) (c : Point ℝ) (r d : ℝ) : ℝ :=
  m.borderPolygon.foldl (edgeReach c r)
    (m.obstacles.foldl (obstacleReach c r) (m.walls.foldl (wallReach c r) d))

end Reach

/-- A player within `d` of `c` is still within `r` of `c` after the map loops, and what it may touch
from there has no edge with one end only and no obstacle with its centre there. -/
structure MapFits (m : GameMap ℝ) (c : Point ℝ) (r d : ℝ) : Prop where
  walls : ∀ wall ∈ m.walls, ∀ e ∈ wall.edges, MayTouch c r e → e.1 ≠ e.2
  obstacles : ∀ obstacle ∈ m.obstacles, MayMeet c r obstacle → r < distance c obstacle.centre
  border : ∀ e ∈ m.borderPolygon, MayTouch c r e → e.1 ≠ e.2
  reach : mapReach m c r d ≤ r

/-- A player touches nothing of the map within `r` of `c`. -/
structure MapClear (m : GameMap ℝ) (c : Point ℝ) (r : ℝ) : Prop where
  walls : ∀ wall ∈ m.walls, ∀ e ∈ wall.edges, ¬ MayTouch c r e
  obstacles : ∀ obstacle ∈ m.obstacles, ¬ MayMeet c r obstacle
  border : ∀ e ∈ m.borderPolygon, ¬ MayTouch c r e

/-! ## One push -/

/-- The player has the radius it was made with and is within `d` of `c`. -/
def Player.Within (c : Point ℝ) (d : ℝ) (p : Player ℝ F) : Prop :=
  p.r = Constants.playerRadius ∧ distance c p.centre ≤ d

namespace Player.Within

variable {p : Player ℝ F} {d' : ℝ}

theorem radius (h : p.Within c d) : p.r = 30 := h.1

theorem nonneg (h : p.Within c d) : 0 ≤ d := (distance_nonneg _ _).trans h.2

theorem mono (h : p.Within c d) (hle : d ≤ d') : p.Within c d' := ⟨h.1, h.2.trans hle⟩

theorem toCircle (h : p.Within c d) : p.toCircle = ⟨p.centre, 30⟩ := congrArg (Circle.mk _) h.radius

/-- A player that is moved by at most `l`. -/
theorem moveTo (h : p.Within c d) {z : Point ℝ} {l : ℝ} (hle : distance p.centre z ≤ l) :
    (p.moveTo z).Within c (d + l) :=
  ⟨h.1, (distance_triangle _ _ _).trans (add_le_add h.2 hle)⟩

end Player.Within

theorem cross_swap (a b z : Point ℝ) : cross b a z = -cross a b z := by
  unfold cross
  ring

theorem triangleHeight_swap (z a b : Point ℝ) : triangleHeight z b a = triangleHeight z a b := by
  rw [triangleHeight_eq, triangleHeight_eq, cross_swap, abs_neg, distance_comm]

/-- The heights over a line of two points differ by at most their distance. -/
theorem abs_triangleHeight_sub_le {a b : Point ℝ} (hab : a ≠ b) (z w : Point ℝ) :
    |triangleHeight w a b - triangleHeight z a b| ≤ distance z w := by
  have hd : 0 < distance a b := distance_pos hab
  rw [triangleHeight_eq, triangleHeight_eq, ← sub_div, abs_div, abs_of_pos hd, div_le_iff₀ hd,
    mul_comm]
  exact (abs_abs_sub_abs_le _ _).trans (abs_cross_sub_le a b z w)

/-- A push off an edge is as long as the disc is deep. -/
theorem distance_edgePush {a b : Point ℝ} (hab : a ≠ b) (z : Point ℝ) :
    distance z (z + edgePush ⟨z, 30⟩ a b) = |30 - triangleHeight z a b| := by
  have hd : 0 < distance a b := distance_pos hab
  rw [edgePush_eq, distance_moved, length_normal, abs_div, abs_of_pos hd, div_mul_cancel₀ _ hd.ne',
    triangleHeight_eq_abs_signedDistance]

variable {p : Player ℝ F}

theorem edgeReach_of_mayTouch {e : Point ℝ × Point ℝ} (h : MayTouch c r e) :
    edgeReach c r d e = d + (|30 - triangleHeight c e.1 e.2| + d) := if_pos h

theorem obstacleReach_of_mayMeet {obstacle : Circle ℝ} (h : MayMeet c r obstacle) :
    obstacleReach c r d obstacle = d + (|30 + obstacle.r - distance c obstacle.centre| + d) :=
  if_pos h

theorem le_edgeReach (hd : 0 ≤ d) (e : Point ℝ × Point ℝ) : d ≤ edgeReach c r d e := by
  unfold edgeReach
  split_ifs
  · linarith [abs_nonneg (Constants.playerRadius - triangleHeight c e.1 e.2)]
  · exact le_rfl

theorem le_obstacleReach (hd : 0 ≤ d) (obstacle : Circle ℝ) :
    d ≤ obstacleReach c r d obstacle := by
  unfold obstacleReach
  split_ifs
  · linarith [abs_nonneg (Constants.playerRadius + obstacle.r - distance c obstacle.centre)]
  · exact le_rfl

/-- The test against an edge: the points it divides by are apart, and the player stays in reach. -/
theorem within_pushOff {P1 P2 Q1 Q2 : Point ℝ} (hQ : Q1 = P1 ∧ Q2 = P2 ∨ Q1 = P2 ∧ Q2 = P1)
    (hends : MayTouch c r (P1, P2) → P1 ≠ P2) (hp : p.Within c d)
    (hreach : edgeReach c r d (P1, P2) ≤ r) :
    Tests.apart.edge p.toCircle P1 P2 Q1 Q2 ∧
      (pushOff P1 P2 Q1 Q2 p).Within c (edgeReach c r d (P1, P2)) := by
  have hle := le_edgeReach (c := c) (r := r) hp.nonneg (P1, P2)
  have htouch : checkCollisionSegment p.toCircle P1 P2 = true → MayTouch c r (P1, P2) := by
    intro h
    rw [hp.toCircle] at h
    exact ⟨p.centre, hp.2.trans (hle.trans hreach), h⟩
  refine ⟨?_, ?_⟩
  · rintro rfl
    by_contra hnear
    exact hends (htouch ((checkCollisionSegment_self _ _).mpr (not_lt.mp hnear))) rfl
  unfold pushOff
  split_ifs with h
  · have hmay := htouch h
    have hne : Q1 ≠ Q2 := by
      rcases hQ with ⟨rfl, rfl⟩ | ⟨rfl, rfl⟩
      · exact hends hmay
      · exact (hends hmay).symm
    have hheight : ∀ z, triangleHeight z Q1 Q2 = triangleHeight z P1 P2 := by
      rcases hQ with ⟨rfl, rfl⟩ | ⟨rfl, rfl⟩
      · exact fun _ => rfl
      · exact fun z => triangleHeight_swap z _ _
    rw [moveAlongNormalSegment_eq, edgeReach_of_mayTouch hmay]
    refine hp.moveTo ?_
    rw [hp.toCircle, distance_edgePush hne, hheight]
    have hgap := abs_triangleHeight_sub_le (hends hmay) c p.centre
    have hsplit := abs_sub_le 30 (triangleHeight c P1 P2) (triangleHeight p.centre P1 P2)
    rw [abs_sub_comm (triangleHeight c P1 P2)] at hsplit
    linarith [hp.2]
  · exact hp.mono hle

/-- The test against an obstacle. -/
theorem within_collideObstacle {obstacle : Circle ℝ}
    (hcentre : MayMeet c r obstacle → r < distance c obstacle.centre) (hp : p.Within c d)
    (hreach : obstacleReach c r d obstacle ≤ r) :
    Tests.apart.obstacle p.toCircle obstacle ∧
      (collideObstacle p obstacle).Within c (obstacleReach c r d obstacle) := by
  have hle := le_obstacleReach (c := c) (r := r) hp.nonneg obstacle
  have hnear : distance c p.centre ≤ r := hp.2.trans (hle.trans hreach)
  have hmeet : checkCollisionCircle p.toCircle obstacle = true → MayMeet c r obstacle := by
    intro h
    rw [hp.toCircle] at h
    exact ⟨p.centre, hnear, h⟩
  have hne : checkCollisionCircle p.toCircle obstacle = true → p.centre ≠ obstacle.centre := by
    intro h hcentres
    rw [hcentres] at hnear
    exact absurd (hcentre (hmeet h)) (not_lt.mpr hnear)
  refine ⟨fun hcentres => ?_, ?_⟩
  · by_contra hradii
    exact hne ((checkCollisionCircle_of_centre_eq hcentres).mpr hradii) hcentres
  unfold collideObstacle
  split_ifs with h
  · have hmoved : moveAlongNormalCircle p obstacle = p.moveTo (p.centre
        + (p.centre - obstacle.centre)
          * ((30 + obstacle.r - distance p.centre obstacle.centre)
            / distance p.centre obstacle.centre)) := by
      refine congrArg p.moveTo (congrArg (p.centre + ·) ?_)
      show (p.centre - obstacle.centre) / (p.centre - obstacle.centre).length
        * (p.r + obstacle.r - distance p.centre obstacle.centre) = _
      rw [length_sub, hp.radius]
      exact pushVector_mul p.toCircle obstacle _
    rw [hmoved, obstacleReach_of_mayMeet (hmeet h)]
    refine hp.moveTo ?_
    have hd : 0 < distance p.centre obstacle.centre := distance_pos (hne h)
    rw [distance_moved, length_sub, abs_div, abs_of_pos hd, div_mul_cancel₀ _ hd.ne']
    have hgap : |distance c obstacle.centre - distance p.centre obstacle.centre|
        ≤ distance c p.centre := by
      have hfrom := distance_triangle c p.centre obstacle.centre
      have hto := distance_triangle p.centre c obstacle.centre
      rw [distance_comm p.centre c] at hto
      exact abs_le.mpr ⟨by linarith, by linarith⟩
    have hsplit := abs_sub_le (30 + obstacle.r) (distance c obstacle.centre)
      (distance p.centre obstacle.centre)
    linarith [hp.2]
  · exact hp.mono hle

/-! ## The loops -/

section Loops

variable {α : Type} {b : ℝ → α → ℝ}

theorem le_foldl_reach (hle : ∀ d x, 0 ≤ d → d ≤ b d x) (xs : List α) (hd : 0 ≤ d) :
    d ≤ xs.foldl b d :=
  List.foldlRecOn xs b le_rfl fun d' hd' x _ => hd'.trans (hle d' x (hd.trans hd'))

/-- A loop whose body keeps the player in reach. -/
theorem along_within (f : Player ℝ F → α → Player ℝ F) (ok : Player ℝ F → α → Prop)
    (hle : ∀ d x, 0 ≤ d → d ≤ b d x) (xs : List α)
    (hbody : ∀ p d, ∀ x ∈ xs, p.Within c d → b d x ≤ r → ok p x ∧ (f p x).Within c (b d x)) :
    ∀ {p : Player ℝ F} {d : ℝ}, p.Within c d → xs.foldl b d ≤ r →
      Lts.AlongFold f ok xs p ∧ (xs.foldl f p).Within c (xs.foldl b d) := by
  induction xs with
  | nil => exact fun hp _ => ⟨trivial, hp⟩
  | cons x xs ih =>
    intro p d hp hreach
    have hstep : b d x ≤ r :=
      (le_foldl_reach hle xs (hp.nonneg.trans (hle d x hp.nonneg))).trans hreach
    obtain ⟨hok, hnext⟩ := hbody p d x List.mem_cons_self hp hstep
    obtain ⟨hrest, hend⟩ :=
      ih (fun q d' y hy => hbody q d' y (List.mem_cons_of_mem x hy)) hnext hreach
    exact ⟨(Lts.alongFold_cons _ _).mpr ⟨hok, hrest⟩, hend⟩

end Loops

theorem le_wallReach (hd : 0 ≤ d) (wall : Rectangle ℝ) : d ≤ wallReach c r d wall :=
  le_foldl_reach (fun _ e h => le_edgeReach h e) _ hd

/-- The four tests of a wall that is touched, and the wall loop's body. -/
theorem within_collideWall {wall : Rectangle ℝ}
    (hends : ∀ e ∈ wall.edges, MayTouch c r e → e.1 ≠ e.2) (hp : p.Within c d)
    (hreach : wallReach c r d wall ≤ r) :
    Tests.apart.Rectangle p wall ∧ (collideWall p wall).Within c (wallReach c r d wall) := by
  set d1 := edgeReach c r d (wall.p0, wall.p1) with hd1
  set d2 := edgeReach c r d1 (wall.p1, wall.p2) with hd2
  set d3 := edgeReach c r d2 (wall.p2, wall.p3) with hd3
  have hd4 : wallReach c r d wall = edgeReach c r d3 (wall.p3, wall.p0) := rfl
  have hle := le_wallReach (c := c) (r := r) hp.nonneg wall
  rw [hd4] at hreach hle ⊢
  have hle1 : d ≤ d1 := le_edgeReach hp.nonneg _
  have hle2 : d1 ≤ d2 := le_edgeReach (hp.nonneg.trans hle1) _
  have hle3 : d2 ≤ d3 := le_edgeReach (hp.nonneg.trans (hle1.trans hle2)) _
  have hle4 : d3 ≤ edgeReach c r d3 (wall.p3, wall.p0) :=
    le_edgeReach (hp.nonneg.trans (hle1.trans (hle2.trans hle3))) _
  simp only [Rectangle.edges, List.forall_mem_cons] at hends
  obtain ⟨hends1, hends2, hends3, hends4, -⟩ := hends
  obtain ⟨htest1, hp1⟩ := within_pushOff (.inr ⟨rfl, rfl⟩) hends1 hp
    (hle2.trans (hle3.trans (hle4.trans hreach)))
  obtain ⟨htest2, hp2⟩ := within_pushOff (.inr ⟨rfl, rfl⟩) hends2 hp1
    (hle3.trans (hle4.trans hreach))
  obtain ⟨htest3, hp3⟩ := within_pushOff (.inr ⟨rfl, rfl⟩) hends3 hp2 (hle4.trans hreach)
  obtain ⟨htest4, hp4⟩ := within_pushOff (.inr ⟨rfl, rfl⟩) hends4 hp3 hreach
  refine ⟨⟨htest1, htest2, htest3, htest4⟩, ?_⟩
  unfold collideWall
  split_ifs
  · exact hp4
  · exact hp.mono hle

theorem le_mapReach (hd : 0 ≤ d) : d ≤ mapReach m c r d := by
  have hwalls : d ≤ m.walls.foldl (wallReach c r) d :=
    le_foldl_reach (fun _ wall h => le_wallReach h wall) _ hd
  have hobstacles := le_foldl_reach (b := obstacleReach c r) (fun _ o h => le_obstacleReach h o)
    m.obstacles (hd.trans hwalls)
  exact hwalls.trans (hobstacles.trans (le_foldl_reach (b := edgeReach c r)
    (fun _ e h => le_edgeReach h e) m.borderPolygon (hd.trans (hwalls.trans hobstacles))))

/-- **Reach of the map.** In the map loops no points coincide where they are tested, and the player
stays in reach. -/
theorem MapFits.apart (h : MapFits m c r d) (hp : p.Within c d) :
    Tests.apart.Map m p ∧ ∀ q, collideMap m p = some q → q.Within c r := by
  have hleWall : ∀ d wall, 0 ≤ d → d ≤ wallReach c r d wall := fun _ wall hd => le_wallReach hd wall
  have hleObstacle : ∀ d o, 0 ≤ d → d ≤ obstacleReach c r d o := fun _ o hd => le_obstacleReach hd o
  have hleEdge : ∀ d e, 0 ≤ d → d ≤ edgeReach c r d e := fun _ e hd => le_edgeReach hd e
  set dWalls := m.walls.foldl (wallReach c r) d with hdWalls
  set dObstacles := m.obstacles.foldl (obstacleReach c r) dWalls with hdObstacles
  have hdW : 0 ≤ dWalls := hp.nonneg.trans (le_foldl_reach hleWall _ hp.nonneg)
  have hdO : 0 ≤ dObstacles := hdW.trans (le_foldl_reach hleObstacle _ hdW)
  have hreach : m.borderPolygon.foldl (edgeReach c r) dObstacles ≤ r := h.reach
  have hreachO : dObstacles ≤ r := (le_foldl_reach hleEdge _ hdO).trans hreach
  have hreachW : dWalls ≤ r := (le_foldl_reach hleObstacle _ hdW).trans hreachO
  obtain ⟨hwalls, hpW⟩ := along_within collideWall
    (fun q wall => checkCollisionRectangle q.toCircle wall = true → Tests.apart.Rectangle q wall)
    hleWall m.walls (fun q _ wall hwall hq hle =>
      (within_collideWall (h.walls wall hwall) hq hle).imp_left fun ht _ => ht) hp hreachW
  obtain ⟨hobstacles, hpO⟩ := along_within collideObstacle
    (fun q o => Tests.apart.obstacle q.toCircle o) hleObstacle m.obstacles
    (fun q _ o ho hq hle => within_collideObstacle (h.obstacles o ho) hq hle) hpW hreachO
  obtain ⟨hborder, hpB⟩ := along_within collideBorder
    (fun q e => Tests.apart.edge q.toCircle e.1 e.2 e.1 e.2) hleEdge m.borderPolygon
    (fun q _ e he hq hle => within_pushOff (.inl ⟨rfl, rfl⟩) (h.border e he) hq hle) hpO hreach
  have hedges : ∀ edges, borderEdges m.borders = some edges → edges = m.borderPolygon := by
    intro edges hedges
    have hne : m.borders ≠ [] := by
      intro hnil
      rw [hnil] at hedges
      cases hedges
    exact Option.some.inj (hedges.symm.trans (borderEdges_eq hne))
  refine ⟨⟨hwalls, hobstacles, fun edges he => ?_⟩, fun q hq => ?_⟩
  · rw [hedges edges he]
    exact hborder
  · obtain ⟨edges, he, rfl⟩ := Option.map_eq_some_iff.mp hq
    rw [hedges edges he]
    exact hpB.mono hreach

/-! ## Out of reach -/

theorem MayTouch.near {z : Point ℝ} {e : Point ℝ × Point ℝ} (h : MayTouch z 0 e)
    (hz : distance c z ≤ r) : MayTouch c r e := by
  obtain ⟨w, hw, htouch⟩ := h
  exact ⟨w, by linarith [distance_triangle c z w], htouch⟩

theorem MayMeet.near {z : Point ℝ} {obstacle : Circle ℝ} (h : MayMeet z 0 obstacle)
    (hz : distance c z ≤ r) : MayMeet c r obstacle := by
  obtain ⟨w, hw, hmeet⟩ := h
  exact ⟨w, by linarith [distance_triangle c z w], hmeet⟩

/-- At a place where nothing is touched nothing pushes. -/
theorem MapClear.fits (h : MapClear m c r) {z : Point ℝ} (hz : distance c z ≤ r) :
    MapFits m z 0 0 where
  walls wall hwall e he hmay := absurd (hmay.near hz) (h.walls wall hwall e he)
  obstacles o ho hmay := absurd (hmay.near hz) (h.obstacles o ho)
  border e he hmay := absurd (hmay.near hz) (h.border e he)
  reach := by
    have hwalls : m.walls.foldl (wallReach z 0) 0 = 0 := by
      refine List.foldlRecOn (motive := (· = 0)) m.walls _ rfl fun d hd wall hwall => ?_
      refine List.foldlRecOn (motive := (· = 0)) wall.edges _ hd fun d hd e he => ?_
      rw [hd]
      exact if_neg fun hmay => h.walls wall hwall e he (hmay.near hz)
    have hobstacles : m.obstacles.foldl (obstacleReach z 0) 0 = 0 := by
      refine List.foldlRecOn (motive := (· = 0)) m.obstacles _ rfl fun d hd o ho => ?_
      rw [hd]
      exact if_neg fun hmay => h.obstacles o ho (hmay.near hz)
    have hborder : m.borderPolygon.foldl (edgeReach z 0) 0 = 0 := by
      refine List.foldlRecOn (motive := (· = 0)) m.borderPolygon _ rfl fun d hd e he => ?_
      rw [hd]
      exact if_neg fun hmay => h.border e he (hmay.near hz)
    unfold mapReach
    rw [hwalls, hobstacles, hborder]

/-- A player that touches nothing stays where it is. -/
theorem MapClear.apart (h : MapClear m c r) (hp : p.Within c r) :
    Tests.apart.Map m p ∧ ∀ q, collideMap m p = some q → q = p := by
  obtain ⟨htests, hend⟩ := (h.fits hp.2).apart (p := p) ⟨hp.1, (distance_eq_zero_iff.mpr rfl).le⟩
  refine ⟨htests, fun q hq => ?_⟩
  obtain ⟨z, rfl⟩ := moved_collideMap hq
  obtain rfl : p.centre = z := by
    by_contra hne
    exact absurd (distance_pos hne) (not_lt.mpr (hend _ hq).2)
  rfl

theorem abs_x_sub_le_distance (a b : Point ℝ) : |b.x - a.x| ≤ distance a b := by
  rw [distance_eq]
  exact Real.abs_le_sqrt (le_add_of_nonneg_right (sq_nonneg _))

theorem abs_y_sub_le_distance (a b : Point ℝ) : |b.y - a.y| ≤ distance a b := by
  rw [distance_eq]
  exact Real.abs_le_sqrt (le_add_of_nonneg_left (sq_nonneg _))

end PRShooter
