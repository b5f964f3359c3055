import PRShooter.ExactReal
import PRShooter.TickFrame
import Mathlib.Algebra.Field.Defs
import Mathlib.Tactic.LinearCombination
import Mathlib.Tactic.Ring

/-!
# The game somewhere else

A tick has no favourite direction and no favourite place: if everything is rotated about the origin
and shifted, the ticks that follow give the rotated and shifted game (`ticks_move`). There is one
exception: the player that `players[projectile.owner_id]` adds for an owner who has left is put at the
origin, so the game may be shifted only if every owner is there.

The arithmetic is that of any field. Reflections are no motions: `calculateDisplacement` takes the
normal to the left of an edge.
-/

set_option linter.unusedSectionVars false

namespace PRShooter

/-- A rotation of the plane about the origin, followed by a shift. -/
structure Motion (D : Type) [Field D] where
  cos : D
  sin : D
  shift : Point D
  unit : cos * cos + sin * sin = 1

/-- Whoever has fired a projectile that is in the air is there. -/
def Game.OwnersPresent {D F : Type} (g : Game D F) : Prop :=
  ∀ p ∈ g.projectiles, p.ownerId ∈ g.players.keys

namespace Motion

variable {D F : Type} [Field D] (R : Motion D)

/-- The vector after the rotation. -/
def turn (v : Point D) : Point D := ⟨R.cos * v.x - R.sin * v.y, R.sin * v.x + R.cos * v.y⟩

/-- The point after the motion. -/
def move (p : Point D) : Point D := R.turn p + R.shift

def circle (c : Circle D) : Circle D := { c with centre := R.move c.centre }

def rectangle (rec : Rectangle D) : Rectangle D :=
  ⟨R.move rec.p0, R.move rec.p1, R.move rec.p2, R.move rec.p3⟩

/-- The player at the new place. No tick reads the angle. -/
def player (p : Player D F) : Player D F :=
  { p with centre := R.move p.centre, velocity := R.turn p.velocity }

def projectile (p : Projectile D) : Projectile D :=
  { p with centre := R.move p.centre, velocity := R.turn p.velocity }

/-- The map at the new place. No tick reads the corners. -/
def gameMap (m : GameMap D) : GameMap D :=
  { m with
    borders := m.borders.map R.move
    walls := m.walls.map R.rectangle
    obstacles := m.obstacles.map R.circle }

def game (g : Game D F) : Game D F :=
  { gameMap := R.gameMap g.gameMap
    players := g.players.mapVals R.player
    projectiles := g.projectiles.map R.projectile }

/-! ## Vectors and points -/

theorem turn_mul (v : Point D) (d : D) : R.turn (v * d) = R.turn v * d :=
  Point.ext' (by simp only [turn, Point.mul_x, Point.mul_y]; ring)
    (by simp only [turn, Point.mul_x, Point.mul_y]; ring)

theorem turn_div (v : Point D) (d : D) : R.turn (v / d) = R.turn v / d :=
  Point.ext' (by simp only [turn, Point.div_x, Point.div_y]; ring)
    (by simp only [turn, Point.div_x, Point.div_y]; ring)

theorem move_add (p v : Point D) : R.move (p + v) = R.move p + R.turn v :=
  Point.ext' (by simp only [move, turn, Point.add_x, Point.add_y]; ring)
    (by simp only [move, turn, Point.add_x, Point.add_y]; ring)

theorem move_sub (p q : Point D) : R.move p - R.move q = R.turn (p - q) :=
  Point.ext' (by simp only [move, turn, Point.add_x, Point.sub_x, Point.sub_y]; ring)
    (by simp only [move, turn, Point.add_y, Point.sub_x, Point.sub_y]; ring)

theorem move_sub_x (p q : Point D) : (R.move p).x - (R.move q).x = (R.turn (p - q)).x :=
  congrArg Point.x (R.move_sub p q)

theorem move_sub_y (p q : Point D) : (R.move p).y - (R.move q).y = (R.turn (p - q)).y :=
  congrArg Point.y (R.move_sub p q)

/-- Inner products are kept, and so are lengths. -/
theorem dot_turn (v w : Point D) :
    (R.turn v).x * (R.turn w).x + (R.turn v).y * (R.turn w).y = v.x * w.x + v.y * w.y := by
  simp only [turn]
  linear_combination (v.x * w.x + v.y * w.y) * R.unit

theorem square_turn (v : Point D) :
    square (R.turn v).x + square (R.turn v).y = square v.x + square v.y := R.dot_turn v v

theorem length_turn [HasSqrt D] (v : Point D) : (R.turn v).length = v.length :=
  congrArg sqrt (R.square_turn v)

/-! ## Collision tests -/

section Tests

variable [HasSqrt D] (a b p : Point D) (c : Circle D)

theorem distance_move : distance (R.move a) (R.move b) = distance a b := by
  simp only [distance, move_sub_x, move_sub_y, square_turn, Point.sub_x, Point.sub_y]

theorem triangleArea_move :
    triangleArea (R.move a) (R.move b) (R.move p) = triangleArea a b p := by
  simp only [triangleArea, distance_move]

theorem triangleHeight_move :
    triangleHeight (R.move a) (R.move b) (R.move p) = triangleHeight a b p := by
  simp only [triangleHeight, triangleArea_move, distance_move]

theorem closestOnLine_move :
    closestOnLine (R.circle c) (R.move a) (R.move b) = R.move (closestOnLine c a b) := by
  have hline : ∀ dot : D, R.move ⟨a.x + dot * (b.x - a.x), a.y + dot * (b.y - a.y)⟩
      = ⟨(R.move a).x + dot * (R.turn (b - a)).x, (R.move a).y + dot * (R.turn (b - a)).y⟩ :=
    fun dot => Point.ext' (by simp only [move, turn, Point.add_x, Point.sub_x, Point.sub_y]; ring)
      (by simp only [move, turn, Point.add_y, Point.sub_x, Point.sub_y]; ring)
  simp only [closestOnLine, circle, move_sub_x, move_sub_y, dot_turn, distance_move, hline,
    Point.sub_x, Point.sub_y]

variable [LT D] [LE D] [DecidableLT D] [DecidableLE D]

theorem checkCollisionCircle_move (c' : Circle D) :
    checkCollisionCircle (R.circle c) (R.circle c') = checkCollisionCircle c c' := by
  simp only [checkCollisionCircle, circle, move_sub_x, move_sub_y, square_turn, Point.sub_x,
    Point.sub_y]

theorem ciclePointCollision_move :
    ciclePointCollision (R.circle c) (R.move a) = ciclePointCollision c a := by
  simp only [ciclePointCollision, circle, move_sub_x, move_sub_y, dot_turn, Point.sub_x, Point.sub_y]

theorem circleLineSegmentCollision_move :
    circleLineSegmentCollision (R.circle c) (R.move a) (R.move b)
      = circleLineSegmentCollision c a b := by
  simp only [circleLineSegmentCollision, ciclePointCollision_move, closestOnLine_move, distance_move]
  simp only [circle, distance_move]

theorem checkCollisionRectangle_move (rec : Rectangle D) :
    checkCollisionRectangle (R.circle c) (R.rectangle rec) = checkCollisionRectangle c rec := by
  simp only [checkCollisionRectangle, rectangle, circleLineSegmentCollision_move]
  simp only [circle, triangleArea_move]

end Tests

/-! ## Pushing a player -/

section Pushes

variable [HasSqrt D] (P1 P2 Q1 Q2 : Point D) (p q : Player D F) (c c' : Circle D)

theorem calculateDisplacementCircle_move :
    calculateDisplacementCircle (R.circle c) (R.circle c')
      = (R.turn (calculateDisplacementCircle c c').1, (calculateDisplacementCircle c c').2) := by
  simp only [calculateDisplacementCircle, circle, distance_move, move_sub, length_turn, turn_div]

theorem calculateDisplacementSegment_move :
    calculateDisplacementSegment (R.circle c) (R.move P1) (R.move P2)
      = (R.turn (calculateDisplacementSegment c P1 P2).1,
        (calculateDisplacementSegment c P1 P2).2) := by
  have hnormal : (⟨-((R.move P2).y - (R.move P1).y), (R.move P2).x - (R.move P1).x⟩ : Point D)
      = R.turn ⟨-(P2.y - P1.y), P2.x - P1.x⟩ :=
    Point.ext' (by simp only [move, turn, Point.add_y]; ring)
      (by simp only [move, turn, Point.add_x]; ring)
  simp only [calculateDisplacementSegment, hnormal, length_turn, turn_div]
  simp only [circle, triangleHeight_move]

theorem toCircle_player : (R.player p).toCircle = R.circle p.toCircle := rfl

theorem alive_player : (R.player p).alive = p.alive := rfl

theorem moveAlongNormalPlayer_move :
    moveAlongNormalPlayer (R.player p) (R.player q)
      = (R.player (moveAlongNormalPlayer p q).1, R.player (moveAlongNormalPlayer p q).2) := by
  simp only [moveAlongNormalPlayer, toCircle_player, calculateDisplacementCircle_move]
  simp only [player, circle, move_add, turn_mul]

theorem moveAlongNormalSegment_move :
    moveAlongNormalSegment (R.player p) (R.move P1) (R.move P2)
      = R.player (moveAlongNormalSegment p P1 P2) := by
  simp only [moveAlongNormalSegment, toCircle_player, calculateDisplacementSegment_move]
  simp only [player, circle, move_add, turn_mul]

theorem moveAlongNormalCircle_move :
    moveAlongNormalCircle (R.player p) (R.circle c) = R.player (moveAlongNormalCircle p c) := by
  simp only [moveAlongNormalCircle, toCircle_player, calculateDisplacementCircle_move]
  simp only [player, circle, move_add, turn_mul]

variable [LT D] [LE D] [DecidableLT D] [DecidableLE D]

theorem pushOff_move : pushOff (R.move P1) (R.move P2) (R.move Q1) (R.move Q2) (R.player p)
    = R.player (pushOff P1 P2 Q1 Q2 p) := by
  simp only [pushOff, checkCollisionSegment, toCircle_player, circleLineSegmentCollision_move,
    moveAlongNormalSegment_move]
  exact (apply_ite R.player _ _ _).symm

theorem moveAlongNormalRectangle_move (rec : Rectangle D) :
    moveAlongNormalRectangle (R.player p) (R.rectangle rec)
      = R.player (moveAlongNormalRectangle p rec) := by
  simp only [moveAlongNormalRectangle, rectangle, pushOff_move]

theorem collideWall_move (wall : Rectangle D) :
    collideWall (R.player p) (R.rectangle wall) = R.player (collideWall p wall) := by
  simp only [collideWall, toCircle_player, checkCollisionRectangle_move,
    moveAlongNormalRectangle_move]
  exact (apply_ite R.player _ _ _).symm

theorem collideObstacle_move :
    collideObstacle (R.player p) (R.circle c) = R.player (collideObstacle p c) := by
  simp only [collideObstacle, toCircle_player, checkCollisionCircle_move, moveAlongNormalCircle_move]
  exact (apply_ite R.player _ _ _).symm

/-- A border edge at the new place. -/
def edge (e : Point D × Point D) : Point D × Point D := (R.move e.1, R.move e.2)

theorem collideBorder_move (e : Point D × Point D) :
    collideBorder (R.player p) (R.edge e) = R.player (collideBorder p e) := R.pushOff_move _ _ _ _ p

theorem borderEdges_move (ps : List (Point D)) :
    borderEdges (ps.map R.move) = (borderEdges ps).map (List.map R.edge) := by
  cases ps with
  | nil => rfl
  | cons p ps =>
    have hzip : (R.move p :: ps.map R.move).zip (ps.map R.move) = ((p :: ps).zip ps).map R.edge := by
      rw [← List.map_cons]
      exact List.zip_map
    have hlast : (R.move p :: ps.map R.move).getLast (List.cons_ne_nil _ _)
        = R.move ((p :: ps).getLast (List.cons_ne_nil _ _)) :=
      List.getLast_map (f := R.move) (l := p :: ps) (List.cons_ne_nil _ _)
    simp only [List.map_cons, borderEdges, cyclicEdges, Option.map_some, hzip, hlast,
      List.map_append]
    rfl

/-- A loop whose body commutes with the motion does so itself. -/
theorem foldl_move {α : Type} {f : Player D F → α → Player D F} {there : α → α}
    (h : ∀ p a, f (R.player p) (there a) = R.player (f p a)) (l : List α) :
    (l.map there).foldl f (R.player p) = R.player (l.foldl f p) := by
  rw [List.foldl_map]
  exact List.foldl_hom R.player fun p a => h p a

theorem collideMap_move (m : GameMap D) :
    collideMap (R.gameMap m) (R.player p) = (collideMap m p).map R.player := by
  simp only [collideMap, gameMap, borderEdges_move, Option.map_map]
  refine congrArg (fun f => Option.map f (borderEdges m.borders)) (funext fun edges => ?_)
  simp only [Function.comp_apply, R.foldl_move _ fun p wall => R.collideWall_move p wall,
    R.foldl_move _ fun p obstacle => R.collideObstacle_move p obstacle,
    R.foldl_move _ fun p e => R.collideBorder_move p e]

end Pushes

/-! ## The loops over the players -/

section Players

variable [HasSqrt D] [LT D] [LE D] [DecidableLT D] [DecidableLE D] (players : UMap ℕ (Player D F))

theorem collidePlayers_move (k j : ℕ) : collidePlayers k (players.mapVals R.player) j
    = (collidePlayers k players j).mapVals R.player := by
  simp only [collidePlayers, UMap.val_mapVals, toCircle_player, checkCollisionCircle_move,
    moveAlongNormalPlayer_move]
  split_ifs
  · rfl
  · simp only [UMap.mapVals_set]
  · rfl

theorem collidePlayer_move (m : GameMap D) (k : ℕ) :
    collidePlayer (R.gameMap m) (players.mapVals R.player) k
      = (collidePlayer m players k).map fun players => players.mapVals R.player := by
  have hloop : players.keys.foldl (collidePlayers k) (players.mapVals R.player)
      = (players.keys.foldl (collidePlayers k) players).mapVals R.player :=
    List.foldl_hom (fun players => players.mapVals R.player) fun players j =>
      R.collidePlayers_move players k j
  simp only [collidePlayer, UMap.val_mapVals, UMap.keys_mapVals, alive_player, hloop,
    collideMap_move]
  split_ifs with halive
  · rfl
  · rw [Option.map_map, Option.map_map]
    refine congrArg (fun f => Option.map f _) (funext fun p => ?_)
    exact (UMap.mapVals_set _ _ _ _).symm

theorem checkPlayerCollisions_move (m : GameMap D) :
    checkPlayerCollisions (R.gameMap m) (players.mapVals R.player)
      = (checkPlayerCollisions m players).map fun players => players.mapVals R.player :=
  Lts.run_map (I := fun _ => True) trivial (fun _ _ _ _ _ => trivial)
    fun players k _ => R.collidePlayer_move players m k

end Players

/-! ## The loop over the projectiles -/

section Projectiles

variable [HasSqrt D] [LT D] [LE D] [DecidableLT D] [DecidableLE D] (ρ : Rehash ℕ) (m : GameMap D)
  (players : UMap ℕ (Player D F)) (p : Projectile D)

theorem toCircle_projectile : (R.projectile p).toCircle = R.circle p.toCircle := rfl

theorem hitsObject_move : (R.projectile p).hitsObject (R.gameMap m) = p.hitsObject m := by
  simp only [Projectile.hitsObject, gameMap, List.any_map, Function.comp_def, toCircle_projectile,
    checkCollisionRectangle_move, checkCollisionCircle_move]

theorem hitPlayer_move :
    (R.projectile p).hitPlayer (players.mapVals R.player) = p.hitPlayer players := by
  simp only [Projectile.hitPlayer, UMap.keys_mapVals, UMap.val_mapVals, toCircle_projectile,
    toCircle_player, alive_player, checkCollisionCircle_move]
  rfl

theorem player_new [Zero F] (h : R.shift = 0) :
    R.player (Player.new 0 : Player D F) = Player.new 0 := by
  have hturn : R.turn 0 = 0 := Point.ext' (by simp [turn]) (by simp [turn])
  have hmove : R.move 0 = 0 := by
    rw [move, hturn, h]
    exact Point.ext' (add_zero _) (add_zero _)
  simp only [player, Player.new, hturn, hmove]

/-- The player that may be added is at the origin. -/
theorem index_move [Zero F] {ownerId : ℕ} (h : R.shift = 0 ∨ ownerId ∈ players.keys) :
    (players.mapVals R.player).index ρ ownerId (Player.new 0)
      = (players.index ρ ownerId (Player.new 0)).mapVals R.player := by
  rcases h with h | h
  · rw [UMap.mapVals_index, R.player_new h]
  · have h' : ownerId ∈ (players.mapVals R.player).keys := h
    rw [UMap.index_of_mem ρ _ h, UMap.index_of_mem ρ _ h']

theorem damagePlayer_move [Zero F] {ownerId : ℕ} (k : ℕ)
    (h : R.shift = 0 ∨ ownerId ∈ players.keys) :
    damagePlayer ρ (players.mapVals R.player) ownerId k
      = (damagePlayer ρ players ownerId k).mapVals R.player := by
  -- what is done to one player commutes with the motion if it leaves the place alone
  have hset : ∀ (players : UMap ℕ (Player D F)) (k : ℕ) (f : Player D F → Player D F),
      (∀ p, R.player (f p) = f (R.player p)) →
      (players.mapVals R.player).set k (f ((players.mapVals R.player).val k))
        = (players.set k (f (players.val k))).mapVals R.player := by
    intro players k f hf
    rw [UMap.mapVals_set, hf]
    rfl
  have hhealth : ((players.mapVals R.player).val k).health = (players.val k).health := rfl
  let die (p : Player D F) : Player D F := { p with alive := false, deaths := p.deaths + 1 }
  let score (p : Player D F) : Player D F := { p with kills := p.kills + 1 }
  let hurt (p : Player D F) : Player D F := { p with health := p.health - Constants.projectileDamage }
  simp only [damagePlayer, hhealth]
  split_ifs
  · have hdeath := hset players k die fun _ => rfl
    have howner := R.index_move ρ (players.set k (die (players.val k))) h
    rw [← hdeath] at howner
    exact (congrArg (fun players => players.set ownerId (score (players.val ownerId))) howner).trans
      (hset _ ownerId score fun _ => rfl)
  · exact hset players k hurt fun _ => rfl

theorem checkProjectileCollisions_move [Zero F] (h : R.shift = 0 ∨ p.ownerId ∈ players.keys) :
    checkProjectileCollisions ρ (R.gameMap m) (players.mapVals R.player) (R.projectile p)
      = (checkProjectileCollisions ρ m players p).map fun r => (r.1, r.2.mapVals R.player) := by
  have howner : (R.projectile p).ownerId = p.ownerId := rfl
  have hborders : (R.gameMap m).borders = m.borders.map R.move := rfl
  simp only [checkProjectileCollisions, hitsObject_move, hitPlayer_move, howner, hborders,
    borderEdges_move]
  split_ifs
  · rfl
  · cases p.hitPlayer players with
    | some k => exact congrArg (fun players => some (true, players)) (R.damagePlayer_move ρ players k h)
    | none =>
      simp only [Option.map_map, Function.comp_def, List.any_map, edge, checkCollisionSegment,
        toCircle_projectile, circleLineSegmentCollision_move]

theorem projectileLoop_move [Zero F] (ps : List (Projectile D))
    (h : R.shift = 0 ∨ ∀ p ∈ ps, p.ownerId ∈ players.keys) :
    projectileLoop ρ (R.gameMap m) (players.mapVals R.player) (ps.map R.projectile)
      = (projectileLoop ρ m players ps).map fun r =>
        (r.1.mapVals R.player, r.2.map R.projectile) := by
  induction ps generalizing players with
  | nil => rfl
  | cons p ps ih =>
    have hfirst := R.checkProjectileCollisions_move ρ m players p (h.imp_right fun h => h p (by simp))
    rw [List.map_cons, projectileLoop, projectileLoop, hfirst]
    cases hcheck : checkProjectileCollisions ρ m players p with
    | none => rfl
    | some r =>
      obtain ⟨hit, players'⟩ := r
      have hkeys := (onlyHits_checkProjectileCollisions hcheck).keys
      have hrest := ih players' (h.imp_right fun h q hq => hkeys (h q (by simp [hq])))
      simp only [Option.map_some, bind, Option.bind_some, hrest]
      cases projectileLoop ρ m players' ps with
      | none => rfl
      | some r => cases hit <;> rfl

end Projectiles

/-! ## Ticks -/

variable [HasSqrt D] [LT D] [LE D] [DecidableLT D] [DecidableLE D] [Zero F]

theorem updatePositions_move (g : Game D F) :
    updatePositions (R.game g) = R.game (updatePositions g) := by
  have hplayer : ∀ p : Player D F, (R.player p).advance = R.player p.advance := by
    intro p
    unfold Player.advance
    rw [alive_player]
    split_ifs
    · rfl
    · simp only [player, move_add, turn_mul]
  have hprojectile : ∀ p : Projectile D, (R.projectile p).advance = R.projectile p.advance := by
    intro p
    simp only [Projectile.advance, projectile, move_add, turn_mul]
  simp only [updatePositions, game, UMap.mapVals, hplayer, List.map_map, Function.comp_def,
    hprojectile]

theorem checkCollisions_move (ρ : Rehash ℕ) (g : Game D F) (h : R.shift = 0 ∨ g.OwnersPresent) :
    checkCollisions ρ (R.game g) = (checkCollisions ρ g).map R.game := by
  have hplayers := R.checkPlayerCollisions_move g.players g.gameMap
  simp only [checkCollisions, game, hplayers]
  cases hfirst : checkPlayerCollisions g.gameMap g.players with
  | none => rfl
  | some players =>
    have hkeys := (onlyCentres_checkPlayerCollisions hfirst).1
    have hloop := R.projectileLoop_move ρ g.gameMap players g.projectiles
      (h.imp_right fun h p hp => hkeys ▸ h p hp)
    simp only [Option.map_some, bind, Option.bind_some, hloop]
    cases projectileLoop ρ g.gameMap players g.projectiles <;> rfl

theorem ownersPresent_updatePositions {g : Game D F} (h : g.OwnersPresent) :
    (updatePositions g).OwnersPresent := by
  intro p hp
  obtain ⟨q, hq, rfl⟩ := List.mem_map.mp hp
  exact h q hq

/-- Nobody leaves in a tick. -/
theorem ownersPresent_tick {ρ : Rehash ℕ} {g g' : Game D F} (h : g.OwnersPresent)
    (htick : tick ρ g = some g') : g'.OwnersPresent := by
  obtain ⟨players, players', projectiles, hcollide, hloop, rfl⟩ := tick_eq_some.mp htick
  intro p hp
  have hbefore := ownersPresent_updatePositions h p ((clear_of_projectileLoop hloop).1.subset hp)
  rw [← (onlyCentres_checkPlayerCollisions hcollide).1] at hbefore
  exact (onlyHits_projectileLoop hloop).keys hbefore

/-- **The game somewhere else.** Any number of ticks of the game at another place, and turned, is the
game after these ticks, at that place and turned: they fail together, or every player, projectile and
point of the map has made the motion and nothing else differs. Where the origin does not stay, the
owners of the projectiles have to be there. -/
theorem ticks_move (ρs : List (Rehash ℕ)) (g : Game D F) (h : R.shift = 0 ∨ g.OwnersPresent) :
    Lts.run (fun g ρ => tick ρ g) ρs (R.game g)
      = (Lts.run (fun g ρ => tick ρ g) ρs g).map R.game := by
  refine Lts.run_map (I := fun g => R.shift = 0 ∨ g.OwnersPresent) h
    (fun g ρ g' hg htick => hg.imp_right fun hg => ownersPresent_tick hg htick) fun g ρ hg => ?_
  have hupdated : R.shift = 0 ∨ (updatePositions g).OwnersPresent :=
    hg.imp_right ownersPresent_updatePositions
  show checkCollisions ρ (updatePositions (R.game g)) = _
  rw [updatePositions_move]
  exact R.checkCollisions_move ρ (updatePositions g) hupdated

/-- The rotation by an angle, followed by a shift. -/
noncomputable def ofAngle (angle : ℝ) (shift : Point ℝ) : Motion ℝ where
  cos := Real.cos angle
  sin := Real.sin angle
  shift := shift
  unit := by rw [← sq, ← sq, Real.cos_sq_add_sin_sq]

end Motion

/-- Player 0 has fired a projectile on a map with a triangle for a border. -/
noncomputable def firedGame : Game ℝ ℝ where
  gameMap := ⟨[drawnPoint (0, 0), drawnPoint (100, 0), drawnPoint (0, 100)], 0, 0, [], []⟩
  players := (UMap.empty (Player.new 0)).insert Rehash.front 0
    { (Player.new 0 : Player ℝ ℝ) with centre := drawnPoint (30, 30), alive := true }
  projectiles := [.new 0 (drawnPoint (60, 30)) ⟨1, 0⟩]

theorem ticks_move_firedGame : ∃ g', tick Rehash.front firedGame = some g' ∧
    tick Rehash.front ((Motion.ofAngle 1 (drawnPoint (10, 20))).game firedGame)
      = some ((Motion.ofAngle 1 (drawnPoint (10, 20))).game g') := by
  obtain ⟨g', htick⟩ := Option.isSome_iff_exists.mp
    (tick_isSome (g := firedGame) (List.cons_ne_nil _ _) Rehash.front)
  have howner : firedGame.OwnersPresent := by
    intro p hp
    obtain rfl := List.mem_singleton.mp hp
    exact List.mem_singleton.mpr rfl
  have hticks := (Motion.ofAngle 1 (drawnPoint (10, 20))).ticks_move [Rehash.front] firedGame
    (.inr howner)
  simp only [Lts.run_cons, htick] at hticks
  refine ⟨g', htick, ?_⟩
  cases hmoved : tick Rehash.front ((Motion.ofAngle 1 (drawnPoint (10, 20))).game firedGame) with
  | none => simp [hmoved] at hticks
  | some g => simpa [hmoved] using hticks

end PRShooter
