import PRShooter.Serialize

/-!
# `handleMessage`

`IncomingMessage` of `Server/server_structs.h` and `Game::handleMessage` of `Host/game.cpp`. The
payload of a message is a size and the memory from the payload's address on: the handler does not
look at the size, so the offsets it reads are kept beside its result.

A `GameEvent` is what an incoming message, or the update thread, asks of the game. `handleMessage`
is shown to do nothing else to the state (`handleMessage_game`).
-/

namespace PRShooter

/-! ## Incoming messages -/

/-- `IncomingMessage::MessageType`. -/
inductive MessageType where
  | newConnection
  | lostConnection
  | empty
  | message
  deriving DecidableEq, Repr

/-- A payload of `size` bytes at the front of `data`; what follows belongs to something else. -/
structure Message where
  size : ℕ
  data : ℕ → UInt8

/-- `IncomingMessage`. -/
structure IncomingMessage where
  messageType : MessageType
  clientId : ℕ
  message : Message

/-- A payload made of the given bytes, with zeros behind it. -/
def Message.ofBytes (bs : List UInt8) : Message := ⟨bs.length, fun i => bs.getD i 0⟩

/-- The enumerator a type byte is cast to. -/
def DataType.ofByte : ℕ → DataType
  | 0 => welcomeMessage
  | 1 => gameMap
  | 2 => gameState
  | 10 => spawn
  | 11 => shoot
  | 12 => changeOrientation
  | 13 => changeMovementDirection
  | 14 => ping
  | _ => other

/-! ## Reading the payload -/

/-- A computation that reads the payload and keeps the offsets it has read. -/
abbrev Reading (α : Type) := StateM (List ℕ) α

/-- The little-endian number in `width` bytes from `offset` on. -/
def Message.read (m : Message) (offset width : ℕ) : Reading ℕ := do
  modify (· ++ (List.range width).map (offset + ·))
  return LittleEndian.value ((List.range width).map fun i => m.data (offset + i))

/-- What the payload of a MESSAGE asks for. -/
inductive ClientOp (D F : Type) where
  | spawn
  | shoot
  | changeOrientation (angle : F)
  | changeMovementDirection (velocityX velocityY : D)
  | ping (id : ℕ)
  | unknown

/-- The type of the payload: its first byte. -/
def Message.dataType (m : Message) : DataType := DataType.ofByte (m.data 0).toNat

/-- The reads of the inner `switch` of `handleMessage`: the type byte, then the operands. -/
def Message.readOp {D F : Type} [OfWord 64 D] [OfWord 32 F] (m : Message) :
    Reading (ClientOp D F) := do
  let type ← m.read 0 1
  match DataType.ofByte type with
  | .spawn => return .spawn
  | .shoot => return .shoot
  | .changeOrientation =>
    let angle ← m.read 1 4
    return .changeOrientation (ofWord (BitVec.ofNat 32 angle))
  | .changeMovementDirection =>
    let velocityX ← m.read 1 8
    let velocityY ← m.read 9 8
    return .changeMovementDirection (ofWord (BitVec.ofNat 64 velocityX))
      (ofWord (BitVec.ofNat 64 velocityY))
  | .ping =>
    let id ← m.read 1 2
    return .ping id
  | _ => return .unknown

/-! ## The handler -/

/-- A message the host sends: the first three to one client, a serialized game state to all. -/
inductive Outgoing (D : Type) where
  | welcome (playerId : ℕ)
  | map (gameMap : GameMap D)
  | pingReply (id : ℕ)
  | gameState (buffer : Buffer)

/-- The bytes of an outgoing message. -/
def Outgoing.buffer {D : Type} [ToWord 64 D] [NatCast D] : Outgoing D → Buffer
  | .welcome playerId => welcomeMessage D playerId
  | .map gameMap => serializeMap gameMap
  | .pingReply id => PRShooter.pingReply id
  | .gameState buffer => buffer

variable {D F : Type} [Zero D] [One D] [Zero F] [NatCast D] [IntCast D] [OfScientific D] [Add D]
  [Mul D] [LE D] [DecidableLE D] [Trig F D]

/-- The operation of one client on the game, and the replies. -/
def ClientOp.apply (ρ : Rehash ℕ) (draw : ℤ × ℤ) (g : Game D F) (clientId : ℕ) :
    ClientOp D F → Game D F × List (Outgoing D × ℕ)
  | .spawn => (spawnPlayer ρ g clientId draw, [])
  | .shoot => (shootProjectile ρ g clientId, [])
  | .changeOrientation angle => (changePlayerOrientation ρ g clientId angle, [])
  | .changeMovementDirection velocityX velocityY =>
    (changePlayerMovement ρ g clientId velocityX velocityY, [])
  | .ping id => (g, [(.pingReply id, clientId)])
  | .unknown => (g, [])

/-- `handleMessage`: the state after the message and the messages sent, in order. `draw` is where
the drawing loop of `spawnPlayer` ends if the message is a SPAWN. -/
def handleMessage [OfWord 64 D] [OfWord 32 F] (ρ : Rehash ℕ) (draw : ℤ × ℤ) (g : Game D F)
    (m : IncomingMessage) : Reading (Game D F × List (Outgoing D × ℕ)) :=
  match m.messageType with
  | .empty => return (g, [])
  | .newConnection =>
    return (createNewPlayer ρ g m.clientId,
      [(.welcome m.clientId, m.clientId), (.map g.gameMap, m.clientId)])
  | .lostConnection => return (deletePlayer g m.clientId, [])
  | .message => do
    let op ← m.message.readOp
    return op.apply ρ draw g m.clientId

/-- The replies to one message: none, the reply to a PING, or the WELCOME and the map. -/
theorem handleMessage_replies [OfWord 64 D] [OfWord 32 F] (ρ : Rehash ℕ) (draw : ℤ × ℤ)
    (g : Game D F) (m : IncomingMessage) (offs : List ℕ) :
    let replies := ((handleMessage ρ draw g m).run offs).1.2
    replies = [] ∨ (∃ id, replies = [(.pingReply id, m.clientId)])
      ∨ replies = [(.welcome m.clientId, m.clientId), (.map g.gameMap, m.clientId)] := by
  obtain ⟨messageType, clientId, message⟩ := m
  cases messageType with
  | empty | lostConnection => exact .inl rfl
  | newConnection => exact .inr (.inr rfl)
  | message =>
    show (((message.readOp : Reading (ClientOp D F)).run offs).1.apply ρ draw g clientId).2 = [] ∨ _
    cases hop : ((message.readOp : Reading (ClientOp D F)).run offs).1 with
    | ping id =>
      refine .inr (.inl ⟨id, ?_⟩)
      show (((message.readOp : Reading (ClientOp D F)).run offs).1.apply ρ draw g clientId).2 = _
      rw [hop]
      rfl
    | _ => exact .inl rfl

/-! ## Game events -/

/-- What happens to the game in one critical section of `update_mutex`. -/
inductive GameEvent (D F : Type) where
  | connect (ρ : Rehash ℕ) (playerId : ℕ)
  | disconnect (playerId : ℕ)
  | spawn (ρ : Rehash ℕ) (playerId : ℕ) (draw : ℤ × ℤ)
  | shoot (ρ : Rehash ℕ) (playerId : ℕ)
  | changeOrientation (ρ : Rehash ℕ) (playerId : ℕ) (angle : F)
  | changeMovement (ρ : Rehash ℕ) (playerId : ℕ) (velocityX velocityY : D)
  | tick (ρ : Rehash ℕ)

/-- The effect of an event. A spawn is possible only at a point the random draw allows, a tick
only where it does not read past the border. -/
def Game.step [ToInt D] [Sub D] [Div D] [Neg D] [LT D] [DecidableLT D] [HasSqrt D] (g : Game D F) :
    GameEvent D F → Option (Game D F)
  | .connect ρ playerId => some (createNewPlayer ρ g playerId)
  | .disconnect playerId => some (deletePlayer g playerId)
  | .spawn ρ playerId draw =>
    if DrawAllowed g.gameMap draw then some (spawnPlayer ρ g playerId draw) else none
  | .shoot ρ playerId => some (shootProjectile ρ g playerId)
  | .changeOrientation ρ playerId angle => some (changePlayerOrientation ρ g playerId angle)
  | .changeMovement ρ playerId velocityX velocityY =>
    some (changePlayerMovement ρ g playerId velocityX velocityY)
  | .tick ρ => PRShooter.tick ρ g

/-- A message leaves the game as it is or is one game event. -/
theorem handleMessage_game [ToInt D] [Sub D] [Div D] [Neg D] [LT D] [DecidableLT D] [HasSqrt D]
    [OfWord 64 D] [OfWord 32 F] (ρ : Rehash ℕ) {draw : ℤ × ℤ} (g : Game D F)
    (m : IncomingMessage) (offs : List ℕ) (hdraw : DrawAllowed g.gameMap draw) :
    let g' := ((handleMessage ρ draw g m).run offs).1.1
    g' = g ∨ ∃ e, g.step e = some g' := by
  obtain ⟨messageType, clientId, message⟩ := m
  cases messageType with
  | empty => exact .inl rfl
  | newConnection => exact .inr ⟨.connect ρ clientId, rfl⟩
  | lostConnection => exact .inr ⟨.disconnect clientId, rfl⟩
  | message =>
    show (((message.readOp : Reading (ClientOp D F)).run offs).1.apply ρ draw g clientId).1 = g
      ∨ ∃ e, g.step e =
        some (((message.readOp : Reading (ClientOp D F)).run offs).1.apply ρ draw g clientId).1
    cases ((message.readOp : Reading (ClientOp D F)).run offs).1 with
    | spawn => exact .inr ⟨.spawn ρ clientId draw, if_pos hdraw⟩
    | shoot => exact .inr ⟨.shoot ρ clientId, rfl⟩
    | changeOrientation angle => exact .inr ⟨.changeOrientation ρ clientId angle, rfl⟩
    | changeMovementDirection velocityX velocityY =>
      exact .inr ⟨.changeMovement ρ clientId velocityX velocityY, rfl⟩
    | ping | unknown => exact .inl rfl

end PRShooter
