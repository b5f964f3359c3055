import PRShooter.Client

/-!
# The GAME_STATE message

`serializeGameState` on the host and `get_gamestate_from_bytes` on the client are two field lists
written by hand. Each `copy…` of the host appends the encoding of one record, and each `read…` of
the client takes exactly that encoding off the front; the round trip of a whole state follows.
-/

namespace PRShooter

open LittleEndian

/-! ## What a buffer contains -/

namespace Buffer

/-- Append bytes and count them. -/
def append (buf : Buffer) (bs : List UInt8) : Buffer :=
  { buf with written := buf.written ++ bs, size := buf.size + UInt32.ofNat bs.length }

theorem append_append (buf : Buffer) (bs cs : List UInt8) :
    (buf.append bs).append cs = buf.append (bs ++ cs) := by
  simp [append, List.append_assoc, UInt32.add_assoc]

theorem copyToBuf_eq (buf : Buffer) (width val : ℕ) :
    buf.copyToBuf width val = buf.append (bytes width val) := by
  simp [copyToBuf, append]

/-- A loop that appends one encoding for each element. -/
theorem foldl_append {α : Type} {f : Buffer → α → Buffer} {enc : α → List UInt8}
    (h : ∀ buf a, f buf a = buf.append (enc a)) (l : List α) (buf : Buffer) :
    l.foldl f buf = buf.append (l.flatMap enc) := by
  induction l generalizing buf with
  | nil => simp [append]
  | cons a l ih => rw [List.foldl_cons, ih, h, append_append, List.flatMap_cons]

end Buffer

/-! ## Encodings of the records -/

variable {D F : Type} [ToWord 64 D] [ToWord 32 F]

/-- The 16 bytes of a point. -/
def encodePoint (p : Point D) : List UInt8 :=
  bytes 8 (toWord p.x : BitVec 64).toNat ++ bytes 8 (toWord p.y : BitVec 64).toNat

/-- The 44 bytes of a player. -/
def encodePlayer (p : Player D F) : List UInt8 :=
  bytes 2 p.playerId ++ (bytes 1 p.alive.toNat ++ (bytes 1 p.health.toNat ++
    (encodePoint p.centre ++ (encodePoint p.velocity ++
      (bytes 4 (toWord p.orientationAngle : BitVec 32).toNat ++
        (bytes 2 p.kills.toNat ++ bytes 2 p.deaths.toNat))))))

/-- The 34 bytes of a projectile. -/
def encodeProjectile (p : Projectile D) : List UInt8 :=
  bytes 2 p.ownerId ++ (encodePoint p.centre ++ encodePoint p.velocity)

theorem length_encodePoint (p : Point D) : (encodePoint p).length = 16 := by
  simp [encodePoint]

theorem length_encodePlayer (p : Player D F) : (encodePlayer p).length = 44 := by
  simp [encodePlayer, length_encodePoint]

theorem length_encodeProjectile (p : Projectile D) : (encodeProjectile p).length = 34 := by
  simp [encodeProjectile, length_encodePoint]

theorem copyPoint_eq (buf : Buffer) (p : Point D) :
    buf.copyPoint p = buf.append (encodePoint p) := by
  simp [Buffer.copyPoint, Buffer.copyDouble, Buffer.copyToBuf_eq, Buffer.append_append, encodePoint]

theorem copyPlayer_eq (buf : Buffer) (p : Player D F) :
    buf.copyPlayer p = buf.append (encodePlayer p) := by
  simp [Buffer.copyPlayer, copyPoint_eq, Buffer.copyToBuf_eq, Buffer.append_append, encodePlayer]

theorem copyProjectile_eq (buf : Buffer) (p : Projectile D) :
    buf.copyProjectile p = buf.append (encodeProjectile p) := by
  simp [Buffer.copyProjectile, copyPoint_eq, Buffer.copyToBuf_eq, Buffer.append_append,
    encodeProjectile]

/-- The players in enumeration order. -/
def Game.playerList (g : Game D F) : List (Player D F) := g.players.keys.map g.players.val

/-- The body of a GAME_STATE: the counts, the players and the projectiles. -/
def encodeBody (g : Game D F) : List UInt8 :=
  bytes 2 g.playerList.length ++ (bytes 2 g.projectiles.length ++
    (g.playerList.flatMap encodePlayer ++ g.projectiles.flatMap encodeProjectile))

omit [ToWord 64 D] [ToWord 32 F] in
theorem toNat_ofNat_uint16 {n : ℕ} (h : n < 65536) : (UInt16.ofNat n).toNat = n := by
  simpa using h

/-- What the host writes: the type, the narrowed counts, and all players and projectiles. -/
theorem serializeGameState_append (g : Game D F) :
    serializeGameState g =
      (Buffer.new (5 + (UInt16.ofNat g.playerList.length).toNat * sizeofPlayer
        + (UInt16.ofNat g.projectiles.length).toNat * sizeofProjectile)).append
          (bytes 1 DataType.gameState.toNat ++ (bytes 2 (UInt16.ofNat g.playerList.length).toNat ++
            (bytes 2 (UInt16.ofNat g.projectiles.length).toNat ++
              (g.playerList.flatMap encodePlayer ++ g.projectiles.flatMap encodeProjectile)))) := by
  have hlen : g.playerList.length = g.players.keys.length := by simp [Game.playerList]
  unfold serializeGameState
  rw [hlen, Buffer.foldl_append copyProjectile_eq,
    Buffer.foldl_append fun buf k => copyPlayer_eq buf (g.players.val k)]
  simp only [Buffer.copyToBuf_eq, Buffer.append_append, List.append_assoc, Game.playerList,
    List.flatMap_map]

/-- What the host writes for a state whose counts fit into 16 bits. -/
theorem serializeGameState_eq (g : Game D F) (hplayers : g.players.keys.length < 65536)
    (hprojectiles : g.projectiles.length < 65536) :
    serializeGameState g =
      (Buffer.new (5 + g.playerList.length * sizeofPlayer
        + g.projectiles.length * sizeofProjectile)).append
          (bytes 1 DataType.gameState.toNat ++ encodeBody g) := by
  have hlen : g.playerList.length < 65536 := by simpa [Game.playerList] using hplayers
  rw [serializeGameState_append, toNat_ofNat_uint16 hlen, toNat_ofNat_uint16 hprojectiles]
  rfl

/-- Records that all have the same length. -/
theorem length_flatMap_const {α : Type} {enc : α → List UInt8} {n : ℕ}
    (h : ∀ a, (enc a).length = n) (l : List α) : (l.flatMap enc).length = n * l.length := by
  rw [List.length_flatMap, List.map_congr_left fun a _ => h a]
  simp [Nat.mul_comm]

theorem length_encodeBody (g : Game D F) :
    (encodeBody g).length = 4 + 44 * g.playerList.length + 34 * g.projectiles.length := by
  simp only [encodeBody, List.length_append, length_bytes,
    length_flatMap_const length_encodePlayer, length_flatMap_const length_encodeProjectile]
  omega

/-! ## What the client reads -/

theorem reads_readInt_mod (n v : ℕ) : Reads (Client.readInt n) (bytes n v) (v % 256 ^ n) := by
  have hread := (reads_take (length_bytes n v)).map (f := value)
  rwa [value_bytes] at hread

theorem reads_readInt {n v : ℕ} (h : v < 256 ^ n) : Reads (Client.readInt n) (bytes n v) v := by
  have hread := reads_readInt_mod n v
  rwa [Nat.mod_eq_of_lt h] at hread

theorem reads_readDouble (w : BitVec 64) : Reads Client.readDouble (bytes 8 w.toNat) w := by
  have hw : BitVec.ofNat 64 (value (bytes 8 w.toNat)) = w := by
    rw [value_bytes_of_lt (by simpa using w.isLt), BitVec.ofNat_toNat, BitVec.setWidth_eq]
  have hread : Reads Client.readDouble (bytes 8 w.toNat ++ [])
      (BitVec.ofNat 64 (value (bytes 8 w.toNat))) := by
    refine (reads_take (length_bytes 8 w.toNat)).bind ?_
    rw [if_pos (length_bytes 8 w.toNat)]
    exact Reads.pure _
  rwa [List.append_nil, hw] at hread

theorem reads_readFloat (w : BitVec 32) : Reads Client.readFloat (bytes 4 w.toNat) w := by
  have hw : BitVec.ofNat 32 (value (bytes 4 w.toNat)) = w := by
    rw [value_bytes_of_lt (by simpa using w.isLt), BitVec.ofNat_toNat, BitVec.setWidth_eq]
  have hread : Reads Client.readFloat (bytes 4 w.toNat ++ [])
      (BitVec.ofNat 32 (value (bytes 4 w.toNat))) := by
    refine (reads_take (length_bytes 4 w.toNat)).bind ?_
    rw [if_pos (length_bytes 4 w.toNat)]
    exact Reads.pure _
  rwa [List.append_nil, hw] at hread

theorem reads_readBool (b : Bool) : Reads Client.readBool (bytes 1 b.toNat) b := by
  have hread := (reads_take (length_bytes 1 b.toNat)).map (f := fun buf => value buf != 0)
  rw [value_bytes_of_lt (by cases b <;> decide)] at hread
  cases b <;> exact hread

/-- The words of a point. -/
def Point.words (p : Point D) : Point (BitVec 64) := ⟨toWord p.x, toWord p.y⟩

/-- What the client is to know of a player. -/
def Player.clientView (p : Player D F) : Client.Player :=
  { id := p.playerId, alive := p.alive, health := p.health.toNat, position := p.centre.words,
    velocity := p.velocity.words, orientationAngle := toWord p.orientationAngle,
    kills := p.kills.toNat, deaths := p.deaths.toNat }

/-- What the client is to know of a projectile. -/
def Projectile.clientView (p : Projectile D) : Client.Projectile :=
  { ownerId := p.ownerId, position := p.centre.words, velocity := p.velocity.words }

/-- What the client is to know of the game. -/
def Game.clientView (g : Game D F) : Client.GameState :=
  { players := g.playerList.map Player.clientView
    projectiles := g.projectiles.map Projectile.clientView }

theorem reads_readPoint (p : Point D) : Reads Client.readPoint (encodePoint p) p.words :=
  (reads_readDouble _).bind (reads_readDouble _).map

theorem reads_readPlayer (p : Player D F) (hid : p.playerId < 65536) :
    Reads Client.readPlayer (encodePlayer p) p.clientView :=
  (reads_readInt hid).bind <| (reads_readBool _).bind <|
    (reads_readInt p.health.toNat_lt).bind <| (reads_readPoint _).bind <|
    (reads_readPoint _).bind <| (reads_readFloat _).bind <|
    (reads_readInt p.kills.toNat_lt).bind (reads_readInt p.deaths.toNat_lt).map

theorem reads_readProjectile (p : Projectile D) (hid : p.ownerId < 65536) :
    Reads Client.readProjectile (encodeProjectile p) p.clientView :=
  (reads_readInt hid).bind <| (reads_readPoint _).bind (reads_readPoint _).map

/-- The client reads back the body of a GAME_STATE whatever follows it. -/
theorem reads_getGamestateFromBytes (g : Game D F) (hplayers : g.playerList.length < 65536)
    (hprojectiles : g.projectiles.length < 65536) (hids : ∀ p ∈ g.playerList, p.playerId < 65536)
    (howners : ∀ p ∈ g.projectiles, p.ownerId < 65536) :
    Reads Client.getGamestateFromBytes (encodeBody g) g.clientView :=
  (reads_readInt hplayers).bind <| (reads_readInt hprojectiles).bind <|
    (Reads.replicate _ _ _ fun p hp => reads_readPlayer p (hids p hp)).bind
      (Reads.replicate _ _ _ fun p hp => reads_readProjectile p (howners p hp)).map

/-- **Round trip.** What the host serializes is the type byte and a body from which the client
decodes exactly the players and projectiles of the state, in order, with nothing left over; the
message is `5 + 44 * players + 34 * projectiles` bytes long and fits its buffer. -/
theorem gamestate_roundTrip (g : Game D F) (hplayers : g.players.keys.length < 65536)
    (hprojectiles : g.projectiles.length < 65536)
    (hids : ∀ k ∈ g.players.keys, (g.players.val k).playerId < 65536)
    (howners : ∀ p ∈ g.projectiles, p.ownerId < 65536) :
    let message := serializeGameState g
    (∃ body, message.written = UInt8.ofNat DataType.gameState.toNat :: body ∧
      Client.getGamestateFromBytes.run body = some (g.clientView, [])) ∧
    message.size.toNat = 5 + 44 * g.players.keys.length + 34 * g.projectiles.length ∧
    message.written.length = message.size.toNat ∧ message.size.toNat ≤ message.allocated := by
  have hlen : g.playerList.length = g.players.keys.length := by simp [Game.playerList]
  have hbody := length_encodeBody g
  rw [hlen] at hbody
  have hsize : (bytes 1 DataType.gameState.toNat ++ encodeBody g).length
      = 5 + 44 * g.players.keys.length + 34 * g.projectiles.length := by
    rw [List.length_append, length_bytes, hbody]
    omega
  simp only [serializeGameState_eq g hplayers hprojectiles, Buffer.append, Buffer.new, hlen,
    sizeofPlayer, sizeofProjectile, List.nil_append, hsize]
  have hcount : ((0 : UInt32) + UInt32.ofNat
      (5 + 44 * g.players.keys.length + 34 * g.projectiles.length)).toNat
        = 5 + 44 * g.players.keys.length + 34 * g.projectiles.length := by
    rw [UInt32.zero_add, UInt32.toNat_ofNat']
    exact Nat.mod_eq_of_lt (by omega)
  refine ⟨⟨encodeBody g, rfl, ?_⟩, hcount, hcount.symm, ?_⟩
  · have hread := reads_getGamestateFromBytes g (hlen ▸ hplayers) hprojectiles
      (by simpa [Game.playerList] using hids) howners []
    rwa [List.append_nil] at hread
  · rw [hcount]
    omega

/-- Two players in the order 7, 2, and a projectile of the first. -/
def sampleState : Game (BitVec 64) (BitVec 32) where
  gameMap := ⟨[], ⟨0, 0⟩, ⟨0, 0⟩, [], []⟩
  players :=
    { keys := [7, 2]
      nodup := by decide
      val := fun k =>
        { centre := ⟨0x4059000000000000, 0xC049000000000000⟩, r := 0x403E000000000000,
          playerId := k, alive := true, health := 90, velocity := ⟨0x3FF0000000000000, 0⟩,
          orientationAngle := 0x3FC90FDB, kills := 1, deaths := 300 } }
  projectiles :=
    [{ centre := ⟨0, 0x4059000000000000⟩, r := 0x4010000000000000, ownerId := 7,
       velocity := ⟨0, 0x3FF0000000000000⟩ }]

/-- The client reads both players and the projectile of the sample. -/
theorem gamestate_roundTrip_sample :
    ∃ body, (serializeGameState sampleState).written = 2 :: body ∧
      Client.getGamestateFromBytes.run body = some (sampleState.clientView, []) :=
  (gamestate_roundTrip sampleState (by decide) (by decide) (by decide) (by decide)).1

end PRShooter
