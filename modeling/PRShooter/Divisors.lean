import PRShooter.Pushes
import PRShooter.ProjectileRange

/-!
# The divisors of a tick

`calculateDisplacement` divides by the distance of two centres, or by the length of an edge, and
nothing keeps these from being zero: two players may stand on the same point, and a border may
have the same point twice. The tests of a tick are enumerated as the loops make them, each on the
players as they stand then, once for what is divided by and once for the places of the points.
-/

set_option linter.unusedSectionVars false

namespace PRShooter

/-! ## What is divided by -/

section Divisors

variable {D F : Type} [Add D] [Sub D] [Mul D] [Div D] [Neg D] [One D] [NatCast D] [OfScientific D]
  [LT D] [LE D] [DecidableLT D] [DecidableLE D] [HasSqrt D]

/-- The divisor of `calculateDisplacement(circle1, circle2)`. -/
def circleDivisor (circle1 circle2 : Circle D) : D := (circle1.centre - circle2.centre).length

/-- The divisors of `calculateDisplacement(circle, P1, P2)`: the length of the normal, and in
`triangleHeight` that of the edge. -/
def segmentDivisors (P1 P2 : Point D) : List D :=
  [(⟨-(P2.y - P1.y), P2.x - P1.x⟩ : Point D).length, distance P1 P2]

theorem calculateDisplacementCircle_eq (circle1 circle2 : Circle D) :
    calculateDisplacementCircle circle1 circle2 =
      ((circle1.centre - circle2.centre) / circleDivisor circle1 circle2,
        circle1.r + circle2.r - distance circle1.centre circle2.centre) := rfl

theorem calculateDisplacementSegment_eq (circle : Circle D) (P1 P2 : Point D) {l h : D}
    (hdivisors : segmentDivisors P1 P2 = [l, h]) :
    calculateDisplacementSegment circle P1 P2 =
      ((⟨-(P2.y - P1.y), P2.x - P1.x⟩ : Point D) / l,
        circle.r - (2 : ℕ) * triangleArea circle.centre P1 P2 / h) := by
  obtain ⟨rfl, hh⟩ := List.cons.inj hdivisors
  obtain ⟨rfl, -⟩ := List.cons.inj hh
  rfl

/-! ## The tests of a tick -/

/-- What is to hold at the tests of a tick: of two players, of a player and an obstacle, and of a
player, the edge it is tested against and the edge it is pushed off. -/
structure Tests (D : Type) where
  players : Circle D → Circle D → Prop
  obstacle : Circle D → Circle D → Prop
  edge : Circle D → Point D → Point D → Point D → Point D → Prop

namespace Tests

/-- The four tests of `moveAlongNormal(player, object)`. -/
def Rectangle (T : Tests D) (player : Player D F) (object : PRShooter.Rectangle D) : Prop :=
  let player1 := pushOff object.p0 object.p1 object.p1 object.p0 player
  let player2 := pushOff object.p1 object.p2 object.p2 object.p1 player1
  let player3 := pushOff object.p2 object.p3 object.p3 object.p2 player2
  T.edge player.toCircle object.p0 object.p1 object.p1 object.p0 ∧
    T.edge player1.toCircle object.p1 object.p2 object.p2 object.p1 ∧
    T.edge player2.toCircle object.p2 object.p3 object.p3 object.p2 ∧
    T.edge player3.toCircle object.p3 object.p0 object.p0 object.p3

/-- The tests of the wall, obstacle and border loops. -/
def Map (T : Tests D) (m : GameMap D) (player : Player D F) : Prop :=
  Lts.AlongFold collideWall
      (fun p wall => checkCollisionRectangle p.toCircle wall = true → T.Rectangle p wall)
      m.walls player ∧
    let player := m.walls.foldl collideWall player
    Lts.AlongFold collideObstacle (fun p obstacle => T.obstacle p.toCircle obstacle)
        m.obstacles player ∧
      let player := m.obstacles.foldl collideObstacle player
      ∀ edges ∈ borderEdges m.borders,
        Lts.AlongFold collideBorder (fun p e => T.edge p.toCircle e.1 e.2 e.1 e.2) edges player

/-- The tests in the turn of player `k`. -/
def Turn (T : Tests D) (m : GameMap D) (players : UMap ℕ (Player D F)) (k : ℕ) : Prop :=
  (players.val k).alive = true →
    Lts.AlongFold (collidePlayers k)
        (fun ps j => j ≠ k → T.players (ps.val k).toCircle (ps.val j).toCircle)
        players.keys players ∧
      T.Map m ((players.keys.foldl (collidePlayers k) players).val k)

end Tests

end Divisors

/-! ## Where the points are -/

variable {F : Type}

/-- A player is tested against no player on the same point, against no obstacle on the same point
unless their radii cancel, and within its radius against no edge with one end only. -/
def Tests.apart : Tests ℝ where
  players c1 c2 := c1.centre ≠ c2.centre
  obstacle c1 c2 := c1.centre = c2.centre → (c1.r + c2.r) ^ 2 ≤ 1.0e-10
  edge c P1 P2 _ _ := P1 = P2 → c.r < distance P1 c.centre

theorem distance_eq_zero_iff {a b : Point ℝ} : distance a b = 0 ↔ a = b := by
  constructor
  · intro h
    by_contra hne
    exact (distance_pos hne).ne' h
  · rintro rfl
    simp [distance_eq]

theorem checkCollisionCircle_of_centre_eq {c1 c2 : Circle ℝ} (h : c1.centre = c2.centre) :
    checkCollisionCircle c1 c2 = true ↔ ¬ (c1.r + c2.r) ^ 2 ≤ 1.0e-10 := by
  rw [checkCollisionCircle_iff, distance_eq_zero_iff.mpr h]
  constructor <;> intro hlt <;> linarith

/-- An edge with one end is touched by the players within their radius of it. -/
theorem checkCollisionSegment_self (c : Circle ℝ) (P : Point ℝ) :
    checkCollisionSegment c P P = true ↔ distance P c.centre ≤ c.r := by
  have hclosest : closestOnLine c P P = P := by
    rw [closestOnLine_eq]
    exact Point.ext' (by simp [Point.lerp]) (by simp [Point.lerp])
  rw [checkCollisionSegment, circleLineSegmentCollision_iff, hclosest,
    distance_eq_zero_iff.mpr rfl]
  norm_num

/-! ## One tick -/

/-- All players in the map have the radius they were made with. -/
def RadiusOk (players : UMap ℕ (Player ℝ F)) : Prop := ∀ k ∈ players.keys, (players.val k).r = 30

theorem RadiusOk.onlyCentres {players players' : UMap ℕ (Player ℝ F)} (h : RadiusOk players)
    (hmoved : OnlyCentres players players') : RadiusOk players' := by
  intro k hk
  rw [hmoved.r]
  exact h k (hmoved.1 ▸ hk)

end PRShooter
