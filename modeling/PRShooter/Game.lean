import PRShooter.Collisions
import PRShooter.UMap
import PRShooter.Lts

/-!
# The game state and its tick

`Host/game.hpp` and the simulation part of `Host/game.cpp`: what the messages of a client do to
the state, `updatePositions` and `checkCollisions`. The debug counters `packets` and `calc_time`
are left out.

`std::unordered_map` is a `UMap`: every operation that may insert a key takes the `Rehash` that
decides the enumeration afterwards. A border without points makes `size() - 1` wrap around, and
the loops over the border then read past its end: `borderEdges` is `none` there, and so is every
tick that reaches such a loop.
-/

namespace PRShooter

/-! ## Constants -/

namespace Constants

variable {D : Type}

/-- Distance travelled per second by a player. -/
def maxPlayerSpeed : ℕ := 300
/-- Distance travelled per second by a projectile. -/
def projectileSpeed : ℕ := 500
def projectileDamage : UInt8 := 10
def projectileRadius [NatCast D] : D := (4 : ℕ)
def playerRadius [NatCast D] : D := (30 : ℕ)
def epsilonOne [OfScientific D] : D := 0.00001
/-- The time step of 3 ms in seconds. -/
def doubleTimestep [OfScientific D] : D := 0.003

end Constants

/-! ## Data -/

/-- A projectile. -/
structure Projectile (D : Type) extends Circle D where
  ownerId : ℕ
  velocity : Point D

/-- A player. -/
structure Player (D F : Type) extends Circle D where
  playerId : ℕ
  alive : Bool
  health : UInt8
  velocity : Point D
  orientationAngle : F
  kills : UInt16
  deaths : UInt16

/-- The map: the border polygon, the rectangle it is inside of, walls and obstacles. -/
structure GameMap (D : Type) where
  borders : List (Point D)
  topLeft : Point D
  bottomRight : Point D
  walls : List (Rectangle D)
  obstacles : List (Circle D)

/-- The state of `Game`. -/
structure Game (D F : Type) where
  gameMap : GameMap D
  players : UMap ℕ (Player D F)
  projectiles : List (Projectile D)

variable {D F : Type}

/-- The constructor `Projectile(owner_id, start_position, velocity)`. -/
def Projectile.new [NatCast D] (ownerId : ℕ) (startPosition velocity : Point D) : Projectile D :=
  { centre := startPosition, r := Constants.projectileRadius, ownerId, velocity }

/-- The constructor `Player(player_id = 0)`. -/
def Player.new [Zero D] [NatCast D] [Zero F] (playerId : ℕ) : Player D F :=
  { centre := 0, r := Constants.playerRadius, playerId, alive := false, health := 100,
    velocity := 0, orientationAngle := 0, kills := 0, deaths := 0 }

/-- The game on a map, before the first event. -/
def Game.initial [Zero D] [NatCast D] [Zero F] (gameMap : GameMap D) : Game D F :=
  { gameMap, players := UMap.empty (Player.new 0), projectiles := [] }

/-! ## Messages of a client -/

section Messages

variable [Zero D] [NatCast D] [Zero F]

/-- `players[player_id]`. -/
def Game.indexPlayer (ρ : Rehash ℕ) (g : Game D F) (playerId : ℕ) : Game D F :=
  { g with players := g.players.index ρ playerId (Player.new 0) }

/-- Replace the player stored under a key. -/
def Game.setPlayer (g : Game D F) (playerId : ℕ) (p : Player D F) : Game D F :=
  { g with players := g.players.set playerId p }

/-- `createNewPlayer`. -/
def createNewPlayer (ρ : Rehash ℕ) (g : Game D F) (playerId : ℕ) : Game D F :=
  { g with players := g.players.insert ρ playerId (Player.new playerId) }

/-- `deletePlayer`. -/
def deletePlayer (g : Game D F) (playerId : ℕ) : Game D F :=
  { g with players := g.players.erase playerId }

/-- The direction a player looks in. -/
def Player.direction [Trig F D] (p : Player D F) : Point D :=
  ⟨Trig.cos p.orientationAngle, Trig.sin p.orientationAngle⟩

/-- The projectile a player fires: one radius ahead of the centre. -/
def Player.projectile [Add D] [Mul D] [Trig F D] (p : Player D F) (playerId : ℕ) : Projectile D :=
  Projectile.new playerId (p.centre + p.direction * p.r) p.direction

/-- `shootProjectile`. -/
def shootProjectile [Add D] [Mul D] [Trig F D] (ρ : Rehash ℕ) (g : Game D F) (playerId : ℕ) :
    Game D F :=
  let g := g.indexPlayer ρ playerId
  let player := g.players.val playerId
  if player.alive = false then g
  else { g with projectiles := g.projectiles ++ [player.projectile playerId] }

/-- An alive player in the map fires one more projectile. -/
theorem shootProjectile_of_alive [Add D] [Mul D] [Trig F D] (ρ : Rehash ℕ) {g : Game D F}
    {playerId : ℕ} (hkey : playerId ∈ g.players.keys)
    (halive : (g.players.val playerId).alive = true) :
    shootProjectile ρ g playerId = { g with
      projectiles := g.projectiles ++ [(g.players.val playerId).projectile playerId] } := by
  simp [shootProjectile, Game.indexPlayer, UMap.index_of_mem _ _ hkey, halive]

/-- `isInsideBorder`: not written yet in the source, it accepts every point. -/
def isInsideBorder (_ : GameMap D) (_ : Point D) : Bool := true

/-- The point made from two drawn coordinates. -/
def drawnPoint [IntCast D] (draw : ℤ × ℤ) : Point D := ⟨(draw.1 : D), (draw.2 : D)⟩

/-- What the drawing loop of `spawnPlayer` may end with: two values within the bounds of the
`uniform_int_distribution`s whose point `isInsideBorder` accepts. -/
def DrawAllowed [IntCast D] [ToInt D] (m : GameMap D) (draw : ℤ × ℤ) : Prop :=
  (toInt m.topLeft.x ≤ draw.1 ∧ draw.1 ≤ toInt m.bottomRight.x) ∧
    (toInt m.topLeft.y ≤ draw.2 ∧ draw.2 ≤ toInt m.bottomRight.y) ∧
    isInsideBorder m (drawnPoint draw) = true

instance [IntCast D] [ToInt D] (m : GameMap D) (draw : ℤ × ℤ) : Decidable (DrawAllowed m draw) :=
  inferInstanceAs (Decidable ((_ ∧ _) ∧ (_ ∧ _) ∧ _))

/-- `spawnPlayer`, where the drawing loop ends with `draw`. -/
def spawnPlayer [IntCast D] (ρ : Rehash ℕ) (g : Game D F) (playerId : ℕ) (draw : ℤ × ℤ) :
    Game D F :=
  let g := g.indexPlayer ρ playerId
  let player := g.players.val playerId
  if player.alive = false then
    g.setPlayer playerId { player with alive := true, health := 100, centre := drawnPoint draw }
  else g

/-- `changePlayerOrientation`. -/
def changePlayerOrientation (ρ : Rehash ℕ) (g : Game D F) (playerId : ℕ) (angle : F) : Game D F :=
  let g := g.indexPlayer ρ playerId
  g.setPlayer playerId { g.players.val playerId with orientationAngle := angle }

/-- The velocity is at most 1 long, up to the tolerance. -/
def velocityAllowed [One D] [Add D] [Mul D] [OfScientific D] [LE D] [DecidableLE D]
    (velocityX velocityY : D) : Bool :=
  decide (square velocityX + square velocityY ≤ 1 + Constants.epsilonOne)

/-- `changePlayerMovement`. -/
def changePlayerMovement [One D] [Add D] [Mul D] [OfScientific D] [LE D] [DecidableLE D]
    (ρ : Rehash ℕ) (g : Game D F) (playerId : ℕ) (velocityX velocityY : D) : Game D F :=
  if velocityAllowed velocityX velocityY then
    let g := g.indexPlayer ρ playerId
    g.setPlayer playerId { g.players.val playerId with velocity := ⟨velocityX, velocityY⟩ }
  else g

end Messages

/-! ## The tick -/

section Tick

variable [Add D] [Mul D] [NatCast D] [OfScientific D]

/-- One step of an alive player. -/
def Player.advance (p : Player D F) : Player D F :=
  if p.alive = false then p
  else { p with
    centre :=
      p.centre + p.velocity * (Constants.maxPlayerSpeed : D) * (Constants.doubleTimestep : D) }

/-- One step of a projectile. -/
def Projectile.advance (p : Projectile D) : Projectile D :=
  { p with
    centre :=
      p.centre + p.velocity * (Constants.projectileSpeed : D) * (Constants.doubleTimestep : D) }

/-- `updatePositions`. -/
def updatePositions (g : Game D F) : Game D F :=
  { g with
    players := g.players.mapVals Player.advance
    projectiles := g.projectiles.map Projectile.advance }

variable [Sub D] [Div D] [Neg D] [One D] [LT D] [LE D] [DecidableLT D] [DecidableLE D] [HasSqrt D]

/-- `calculateDisplacement(circle1, circle2)`: the unit vector from the second centre to the first
and the depth of the overlap. -/
def calculateDisplacementCircle (circle1 circle2 : Circle D) : Point D × D :=
  let dist := distance circle1.centre circle2.centre
  let displacement := circle1.r + circle2.r - dist
  let displacementVector := circle1.centre - circle2.centre
  (displacementVector / displacementVector.length, displacement)

/-- `calculateDisplacement(circle, P1, P2)`: the unit normal of the line and the depth of the
overlap. With `P1 = P2` it divides by zero, which is not the NaN of the source over the reals. -/
def calculateDisplacementSegment (circle : Circle D) (P1 P2 : Point D) : Point D × D :=
  let dx := P2.x - P1.x
  let dy := P2.y - P1.y
  let normal : Point D := ⟨-dy, dx⟩
  (normal / normal.length, circle.r - triangleHeight circle.centre P1 P2)

/-- `moveAlongNormal(player1, player2)`: each player gives way by half of the overlap. -/
def moveAlongNormalPlayer (player1 player2 : Player D F) : Player D F × Player D F :=
  let d := calculateDisplacementCircle player1.toCircle player2.toCircle
  let halfDisplacement := d.2 / (2 : ℕ)
  ({ player1 with centre := player1.centre + d.1 * halfDisplacement },
    { player2 with centre := player2.centre + d.1 * halfDisplacement * (-1 : D) })

/-- `moveAlongNormal(player, P1, P2)`. -/
def moveAlongNormalSegment (player : Player D F) (P1 P2 : Point D) : Player D F :=
  let d := calculateDisplacementSegment player.toCircle P1 P2
  { player with centre := player.centre + d.1 * d.2 }

/-- `moveAlongNormal(player, object)` for a circle. -/
def moveAlongNormalCircle (player : Player D F) (object : Circle D) : Player D F :=
  let d := calculateDisplacementCircle player.toCircle object
  { player with centre := player.centre + d.1 * d.2 }

/-- The player meets the segment `P1 P2`: it is pushed off the segment `Q1 Q2`. -/
def pushOff (P1 P2 Q1 Q2 : Point D) (player : Player D F) : Player D F :=
  if checkCollisionSegment player.toCircle P1 P2 then moveAlongNormalSegment player Q1 Q2
  else player

/-- `moveAlongNormal(player, object)` for a rectangle: each edge that is touched pushes the player
along the normal of the edge taken backwards. -/
def moveAlongNormalRectangle (player : Player D F) (object : Rectangle D) : Player D F :=
  let player := pushOff object.p0 object.p1 object.p1 object.p0 player
  let player := pushOff object.p1 object.p2 object.p2 object.p1 player
  let player := pushOff object.p2 object.p3 object.p3 object.p2 player
  pushOff object.p3 object.p0 object.p0 object.p3 player

/-- The body of the loop over the walls. -/
def collideWall (player : Player D F) (wall : Rectangle D) : Player D F :=
  if checkCollisionRectangle player.toCircle wall then moveAlongNormalRectangle player wall
  else player

/-- The body of the loop over the obstacles. -/
def collideObstacle (player : Player D F) (obstacle : Circle D) : Player D F :=
  if checkCollisionCircle player.toCircle obstacle then moveAlongNormalCircle player obstacle
  else player

/-- The body of the loop over the border edges. -/
def collideBorder (player : Player D F) (edge : Point D × Point D) : Player D F :=
  pushOff edge.1 edge.2 edge.1 edge.2 player

/-- The body of the inner loop over the players: `k` is resolved against `j`. -/
def collidePlayers (k : ℕ) (players : UMap ℕ (Player D F)) (j : ℕ) : UMap ℕ (Player D F) :=
  if j = k then players
  else if checkCollisionCircle (players.val k).toCircle (players.val j).toCircle then
    let moved := moveAlongNormalPlayer (players.val k) (players.val j)
    (players.set k moved.1).set j moved.2
  else players

/-- The border edges in the order of the loops: each point with its successor, then the last point
with the first. -/
def cyclicEdges (p : Point D) (ps : List (Point D)) : List (Point D × Point D) :=
  (p :: ps).zip ps ++ [((p :: ps).getLast (by simp), p)]

/-- The edges the loops over the border visit. Without border points `size() - 1` is the largest
`size_t` and the first test already reads past the end of the vector. -/
def borderEdges : List (Point D) → Option (List (Point D × Point D))
  | [] => none
  | p :: ps => some (cyclicEdges p ps)

/-- The wall, obstacle and border loops for one player. -/
def collideMap (m : GameMap D) (player : Player D F) : Option (Player D F) :=
  (borderEdges m.borders).map fun edges =>
    edges.foldl collideBorder (m.obstacles.foldl collideObstacle (m.walls.foldl collideWall player))

/-- The body of the outer loop over the players. -/
def collidePlayer (m : GameMap D) (players : UMap ℕ (Player D F)) (k : ℕ) :
    Option (UMap ℕ (Player D F)) :=
  if (players.val k).alive = false then some players
  else
    let players := players.keys.foldl (collidePlayers k) players
    (collideMap m (players.val k)).map (players.set k)

/-- The loop over the players in `checkCollisions`. -/
def checkPlayerCollisions (m : GameMap D) (players : UMap ℕ (Player D F)) :
    Option (UMap ℕ (Player D F)) :=
  Lts.run (collidePlayer m) players.keys players

/-- The projectile touches a wall or an obstacle. -/
def Projectile.hitsObject (m : GameMap D) (p : Projectile D) : Bool :=
  m.walls.any (checkCollisionRectangle p.toCircle)
    || m.obstacles.any (checkCollisionCircle p.toCircle)

/-- The first player in enumeration order that the projectile hits. -/
def Projectile.hitPlayer (players : UMap ℕ (Player D F)) (p : Projectile D) : Option ℕ :=
  players.keys.find? fun k =>
    (players.val k).alive && k != p.ownerId
      && checkCollisionCircle p.toCircle (players.val k).toCircle

/-- The effect of a hit of player `k`: damage, or death and a kill for the owner. -/
def damagePlayer [Zero D] [Zero F] (ρ : Rehash ℕ) (players : UMap ℕ (Player D F))
    (ownerId k : ℕ) : UMap ℕ (Player D F) :=
  let player := players.val k
  if player.health ≤ Constants.projectileDamage then
    let players := players.set k { player with alive := false, deaths := player.deaths + 1 }
    let players := players.index ρ ownerId (Player.new 0)
    let owner := players.val ownerId
    players.set ownerId { owner with kills := owner.kills + 1 }
  else players.set k { player with health := player.health - Constants.projectileDamage }

/-- `checkProjectileCollisions`: whether the projectile is to be removed, and the players after
the hit. -/
def checkProjectileCollisions [Zero D] [Zero F] (ρ : Rehash ℕ) (m : GameMap D)
    (players : UMap ℕ (Player D F)) (p : Projectile D) : Option (Bool × UMap ℕ (Player D F)) :=
  if p.hitsObject m then some (true, players)
  else
    match p.hitPlayer players with
    | some k => some (true, damagePlayer ρ players p.ownerId k)
    | none => (borderEdges m.borders).map fun edges =>
        (edges.any fun e => checkCollisionSegment p.toCircle e.1 e.2, players)

/-- The loop over the projectiles in `checkCollisions`: those that hit something are erased. -/
def projectileLoop [Zero D] [Zero F] (ρ : Rehash ℕ) (m : GameMap D) :
    UMap ℕ (Player D F) → List (Projectile D) → Option (UMap ℕ (Player D F) × List (Projectile D))
  | players, [] => some (players, [])
  | players, p :: ps => do
    let (hit, players) ← checkProjectileCollisions ρ m players p
    let (players, left) ← projectileLoop ρ m players ps
    return (players, if hit then left else p :: left)

/-- `checkCollisions`. -/
def checkCollisions [Zero D] [Zero F] (ρ : Rehash ℕ) (g : Game D F) : Option (Game D F) := do
  let players ← checkPlayerCollisions g.gameMap g.players
  let (players, projectiles) ← projectileLoop ρ g.gameMap players g.projectiles
  return { g with players, projectiles }

/-- One tick of the update thread. -/
def tick [Zero D] [Zero F] (ρ : Rehash ℕ) (g : Game D F) : Option (Game D F) :=
  checkCollisions ρ (updatePositions g)

end Tick

end PRShooter
