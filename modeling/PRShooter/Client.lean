import PRShooter.HandleMessage

/-!
# The client's decoder

`read_int`, `read_float`, `read_point`, `get_map_from_bytes` and `get_gamestate_from_bytes` of
`Client/client.py`, and the part of `receive_message` behind the framing. Doubles and floats stay
the words they are sent as. A `Player` of the client also computes a name and a health ratio for
drawing; these are left out.
-/

namespace PRShooter

namespace Client

open LittleEndian

/-! ## Fields -/

/-- `read_int`. -/
def readInt (length : ℕ) : Reader ℕ := do
  let buf ← take length
  return value buf

/-- `read_float(num, 'd')`: `struct.unpack` raises unless there are 8 bytes. -/
def readDouble : Reader (BitVec 64) := do
  let buf ← take 8
  if buf.length = 8 then return BitVec.ofNat 64 (value buf) else failure

/-- `read_float(num, 'f')`: `struct.unpack` raises unless there are 4 bytes. -/
def readFloat : Reader (BitVec 32) := do
  let buf ← take 4
  if buf.length = 4 then return BitVec.ofNat 32 (value buf) else failure

/-- `bool.from_bytes(num.read(1), 'little')`. -/
def readBool : Reader Bool := do
  let buf ← take 1
  return value buf != 0

/-- `read_point`. -/
def readPoint : Reader (Point (BitVec 64)) := do
  let x ← readDouble
  let y ← readDouble
  return ⟨x, y⟩

/-! ## Records -/

/-- `Player` of the client. -/
structure Player where
  id : ℕ
  alive : Bool
  health : ℕ
  position : Point (BitVec 64)
  velocity : Point (BitVec 64)
  orientationAngle : BitVec 32
  kills : ℕ
  deaths : ℕ

/-- `Projectile` of the client. -/
structure Projectile where
  ownerId : ℕ
  position : Point (BitVec 64)
  velocity : Point (BitVec 64)

/-- `GameState` of the client. -/
structure GameState where
  players : List Player
  projectiles : List Projectile

/-- `readPlayer` inside `get_gamestate_from_bytes`. -/
def readPlayer : Reader Player := do
  let id ← readInt 2
  let alive ← readBool
  let health ← readInt 1
  let position ← readPoint
  let velocity ← readPoint
  let orientationAngle ← readFloat
  let kills ← readInt 2
  let deaths ← readInt 2
  return { id, alive, health, position, velocity, orientationAngle, kills, deaths }

/-- The projectile comprehension of `get_gamestate_from_bytes`. -/
def readProjectile : Reader Projectile := do
  let ownerId ← readInt 2
  let position ← readPoint
  let velocity ← readPoint
  return { ownerId, position, velocity }

/-- `get_gamestate_from_bytes`. -/
def getGamestateFromBytes : Reader GameState := do
  let numberOfPlayers ← readInt 2
  let numberOfProjectiles ← readInt 2
  let players ← readPlayer.replicate numberOfPlayers
  let projectiles ← readProjectile.replicate numberOfProjectiles
  return { players, projectiles }

/-- `Rectangle` of the client. -/
structure Rectangle where
  p0 : Point (BitVec 64)
  p1 : Point (BitVec 64)
  p2 : Point (BitVec 64)
  p3 : Point (BitVec 64)

/-- `Circle` of the client. -/
structure Circle where
  position : Point (BitVec 64)
  radius : BitVec 64

/-- `Map` of the client. -/
structure Map where
  walls : List Rectangle
  obstacles : List Circle
  border : List (Point (BitVec 64))

/-- The wall comprehension of `get_map_from_bytes`. -/
def readRectangle : Reader Rectangle := do
  let p0 ← readPoint
  let p1 ← readPoint
  let p2 ← readPoint
  let p3 ← readPoint
  return { p0, p1, p2, p3 }

/-- The obstacle comprehension of `get_map_from_bytes`. -/
def readCircle : Reader Circle := do
  let position ← readPoint
  let radius ← readDouble
  return { position, radius }

/-- `get_map_from_bytes`. -/
def getMapFromBytes : Reader Map := do
  let numberOfWalls ← readInt 2
  let numberOfObstacles ← readInt 2
  let numberOfBorderPoints ← readInt 2
  let walls ← readRectangle.replicate numberOfWalls
  let obstacles ← readCircle.replicate numberOfObstacles
  let border ← readPoint.replicate numberOfBorderPoints
  return { walls, obstacles, border }

/-! ## Messages -/

/-- What the client takes from a message. -/
inductive Received where
  | welcome (myOwnId : ℕ) (playerRadius projectileRadius : BitVec 64)
  | gameMap (map : Map)
  | ping (id : ℕ)
  | gameState (gameState : GameState)
  /-- Only a line is printed. -/
  | unknown

/-- The dispatch of `receive_message` on the type byte of `rest`. -/
def readReceived : Reader Received := do
  let type ← readInt 1
  match DataType.ofByte type with
  | .welcomeMessage =>
    let myOwnId ← readInt 2
    let playerRadius ← readDouble
    let projectileRadius ← readDouble
    return .welcome myOwnId playerRadius projectileRadius
  | .gameMap =>
    let map ← getMapFromBytes
    return .gameMap map
  | .ping =>
    let id ← readInt 2
    return .ping id
  | .gameState =>
    let gameState ← getGamestateFromBytes
    return .gameState gameState
  | _ => return .unknown

end Client

end PRShooter
