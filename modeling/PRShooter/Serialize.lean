import PRShooter.Game
import PRShooter.LittleEndian

/-!
# Messages to the clients

`copyToBuf`, `serializeGameState`, `serializeMap` and `sendWelcomeMessage` of `Host/game.cpp`. A
`Buffer` records how many bytes were allocated, the bytes written so far and the `size` counter
that becomes the size of the message.
-/

namespace PRShooter

open LittleEndian (bytes)

/-! ## Buffers -/

/-- A buffer that is being filled. -/
structure Buffer where
  allocated : ℕ
  written : List UInt8
  size : UInt32

namespace Buffer

/-- `new unsigned char[n]`. -/
def new (n : ℕ) : Buffer := ⟨n, [], 0⟩

/-- `size += copyToBuf<CopyAs>(buf, val)` with a `CopyAs` of `width` bytes. -/
def copyToBuf (buf : Buffer) (width val : ℕ) : Buffer :=
  { buf with written := buf.written ++ bytes width val, size := buf.size + UInt32.ofNat width }

variable {D : Type} [ToWord 64 D]

/-- `copyToBuf<double>` of a number. -/
def copyDouble (buf : Buffer) (x : D) : Buffer := buf.copyToBuf 8 (toWord x : BitVec 64).toNat

/-- `copyToBuf<double>` of a point. -/
def copyPoint (buf : Buffer) (p : Point D) : Buffer := (buf.copyDouble p.x).copyDouble p.y

end Buffer

/-! ## The sizes of the structures on x86-64 -/

def sizeofPoint : ℕ := 16
def sizeofCircle : ℕ := 24
def sizeofRectangle : ℕ := 64
def sizeofProjectile : ℕ := 48
def sizeofPlayer : ℕ := 64

/-! ## The messages -/

variable {D F : Type} [ToWord 64 D]

/-- The loop body over the players in `serializeGameState`. -/
def Buffer.copyPlayer [ToWord 32 F] (buf : Buffer) (player : Player D F) : Buffer :=
  let buf := buf.copyToBuf 2 player.playerId
  let buf := buf.copyToBuf 1 player.alive.toNat
  let buf := buf.copyToBuf 1 player.health.toNat
  let buf := buf.copyPoint player.centre
  let buf := buf.copyPoint player.velocity
  let buf := buf.copyToBuf 4 (toWord player.orientationAngle : BitVec 32).toNat
  let buf := buf.copyToBuf 2 player.kills.toNat
  buf.copyToBuf 2 player.deaths.toNat

/-- The loop body over the projectiles in `serializeGameState`. -/
def Buffer.copyProjectile (buf : Buffer) (projectile : Projectile D) : Buffer :=
  let buf := buf.copyToBuf 2 projectile.ownerId
  let buf := buf.copyPoint projectile.centre
  buf.copyPoint projectile.velocity

/-- `serializeGameState`. -/
def serializeGameState [ToWord 32 F] (g : Game D F) : Buffer :=
  let playersSize := UInt16.ofNat g.players.keys.length
  let projectilesSize := UInt16.ofNat g.projectiles.length
  let buf := Buffer.new
    (5 + playersSize.toNat * sizeofPlayer + projectilesSize.toNat * sizeofProjectile)
  let buf := buf.copyToBuf 1 DataType.gameState.toNat
  let buf := buf.copyToBuf 2 playersSize.toNat
  let buf := buf.copyToBuf 2 projectilesSize.toNat
  let buf := g.players.keys.foldl (fun buf k => buf.copyPlayer (g.players.val k)) buf
  g.projectiles.foldl Buffer.copyProjectile buf

/-- The four points of a wall in `serializeMap`. -/
def Buffer.copyRectangle (buf : Buffer) (wall : Rectangle D) : Buffer :=
  (((buf.copyPoint wall.p0).copyPoint wall.p1).copyPoint wall.p2).copyPoint wall.p3

/-- The centre and the radius of an obstacle in `serializeMap`. -/
def Buffer.copyCircle (buf : Buffer) (obstacle : Circle D) : Buffer :=
  (buf.copyPoint obstacle.centre).copyDouble obstacle.r

/-- `serializeMap`. -/
def serializeMap (m : GameMap D) : Buffer :=
  let wallsSize := UInt16.ofNat m.walls.length
  let obstaclesSize := UInt16.ofNat m.obstacles.length
  let bordersSize := UInt16.ofNat m.borders.length
  let buf := Buffer.new (7 + wallsSize.toNat * sizeofRectangle
    + obstaclesSize.toNat * sizeofCircle + bordersSize.toNat * sizeofPoint)
  let buf := buf.copyToBuf 1 DataType.gameMap.toNat
  let buf := buf.copyToBuf 2 wallsSize.toNat
  let buf := buf.copyToBuf 2 obstaclesSize.toNat
  let buf := buf.copyToBuf 2 bordersSize.toNat
  let buf := m.walls.foldl Buffer.copyRectangle buf
  let buf := m.obstacles.foldl Buffer.copyCircle buf
  m.borders.foldl Buffer.copyPoint buf

/-- The buffer of `sendWelcomeMessage`. -/
def welcomeMessage (D : Type) [ToWord 64 D] [NatCast D] (playerId : ℕ) : Buffer :=
  let buf := Buffer.new (1 + 2 + 8 * 2)
  let buf := buf.copyToBuf 1 DataType.welcomeMessage.toNat
  let buf := buf.copyToBuf 2 playerId
  let buf := buf.copyDouble (Constants.playerRadius : D)
  buf.copyDouble (Constants.projectileRadius : D)

/-- The buffer of a reply to a PING. -/
def pingReply (id : ℕ) : Buffer :=
  let buf := Buffer.new 3
  let buf := buf.copyToBuf 1 DataType.ping.toNat
  buf.copyToBuf 2 id

end PRShooter
