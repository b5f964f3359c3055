import PRShooter.SerializeBounds
import PRShooter.MapText

/-!
# Which messages the client can decode

`int.from_bytes` takes whatever is left of a message, `struct.unpack` raises on less than it needs.
So `receive_message` raises exactly on bodies that end before the last number read with
`struct.unpack` (`required`); scores at the end of a game state may be cut off unnoticed. The host
builds no message on which it raises, not even when a count does not fit into 16 bits.
-/

namespace PRShooter

namespace Client

open LittleEndian

/-! ## The readers of the client -/

theorem consumes_readInt (n : ℕ) : Consumes (readInt n) 0 n := (consumes_take n).map value

theorem consumes_readBool : Consumes readBool 0 1 := (consumes_take 1).map fun buf => value buf != 0

/-- `struct.unpack` of `n` bytes. -/
theorem consumes_unpack {α : Type} (n : ℕ) (f : List UInt8 → α) :
    Consumes (do let buf ← take n; if buf.length = n then return f buf else failure) n n := by
  have hrun : ∀ bs : List UInt8,
      (do let buf ← take n; if buf.length = n then return f buf else failure : Reader α).run bs =
        if n ≤ bs.length then some (f (bs.take n), bs.drop n) else none := by
    intro bs
    show ((if (bs.take n).length = n then return f (bs.take n) else failure : Reader α).run
      (bs.drop n)) = _
    rw [List.length_take]
    split_ifs with htake hle hle
    · rfl
    · omega
    · omega
    · rfl
  refine ⟨fun bs => ?_, fun bs rest a h => ?_⟩ <;> rw [hrun] at *
  · split_ifs with hle <;> simp [hle]
  · split_ifs at h
    exact (Prod.mk.inj (Option.some.inj h)).2.symm

theorem consumes_readDouble : Consumes readDouble 8 8 :=
  consumes_unpack 8 fun buf => BitVec.ofNat 64 (value buf)

theorem consumes_readFloat : Consumes readFloat 4 4 :=
  consumes_unpack 4 fun buf => BitVec.ofNat 32 (value buf)

theorem consumes_readPoint : Consumes readPoint 16 16 := by
  have h := consumes_readDouble.bind fun x => consumes_readDouble.map fun y =>
    (⟨x, y⟩ : Point (BitVec 64))
  exact h

/-- Of the 44 bytes of a player, the 4 bytes of its scores may be missing. -/
theorem consumes_readPlayer : Consumes readPlayer 40 44 := by
  have h := (consumes_readInt 2).bind fun id => consumes_readBool.bind fun alive =>
    (consumes_readInt 1).bind fun health => consumes_readPoint.bind fun position =>
    consumes_readPoint.bind fun velocity => consumes_readFloat.bind fun orientationAngle =>
    (consumes_readInt 2).bind fun kills => (consumes_readInt 2).map fun deaths =>
      ({ id, alive, health, position, velocity, orientationAngle, kills, deaths } : Player)
  exact h

theorem consumes_readProjectile : Consumes readProjectile 34 34 := by
  have h := (consumes_readInt 2).bind fun ownerId => consumes_readPoint.bind fun position =>
    consumes_readPoint.map fun velocity => ({ ownerId, position, velocity } : Projectile)
  exact h

theorem consumes_readRectangle : Consumes readRectangle 64 64 := by
  have h := consumes_readPoint.bind fun p0 => consumes_readPoint.bind fun p1 =>
    consumes_readPoint.bind fun p2 => consumes_readPoint.map fun p3 => (⟨p0, p1, p2, p3⟩ : Rectangle)
  exact h

theorem consumes_readCircle : Consumes readCircle 24 24 := by
  have h := consumes_readPoint.bind fun position => consumes_readDouble.map fun radius =>
    (⟨position, radius⟩ : Circle)
  exact h

/-! ## Whole bodies -/

/-- The `i`-th of the counts in front of a body. -/
def count (body : List UInt8) (i : ℕ) : ℕ := value ((body.drop (2 * i)).take 2)

/-- What a game state of these counts needs: all of it but the scores at its end. -/
def gameStateNeeds (players projectiles : ℕ) : ℕ :=
  if projectiles ≠ 0 then 4 + 44 * players + 34 * projectiles else 44 * players

/-- What a map of these counts needs. -/
def mapNeeds (walls obstacles borderPoints : ℕ) : ℕ :=
  if walls + obstacles + borderPoints = 0 then 0
  else 6 + 64 * walls + 24 * obstacles + 16 * borderPoints

theorem isSome_getGamestateFromBytes (body : List UInt8) :
    (getGamestateFromBytes.run body).isSome ↔
      gameStateNeeds (count body 0) (count body 1) ≤ body.length := by
  have hplayers := consumes_readPlayer.replicate (by decide) (by decide) (count body 0)
  have hprojectiles := consumes_readProjectile.replicate (by decide) (by decide) (count body 1)
  have htail := (hplayers.bind fun players => hprojectiles.map fun projectiles =>
    (⟨players, projectiles⟩ : GameState)).isSome_iff ((body.drop 2).drop 2)
  refine Iff.trans htail ?_
  clear htail
  rw [List.length_drop, List.length_drop]
  unfold needBoth gameStateNeeds
  split_ifs <;> omega

theorem isSome_getMapFromBytes (body : List UInt8) :
    (getMapFromBytes.run body).isSome ↔
      mapNeeds (count body 0) (count body 1) (count body 2) ≤ body.length := by
  have hwalls := consumes_readRectangle.replicate (by decide) (by decide) (count body 0)
  have hobstacles := consumes_readCircle.replicate (by decide) (by decide) (count body 1)
  have hborder := consumes_readPoint.replicate (by decide) (by decide) (count body 2)
  have htail := (hwalls.bind fun walls => hobstacles.bind fun obstacles =>
    hborder.map fun border => (⟨walls, obstacles, border⟩ : Map)).isSome_iff
      (((body.drop 2).drop 2).drop 2)
  have hcounts : ((body.drop 2).drop 2).take 2 = (body.drop (2 * 2)).take 2 := by
    rw [List.drop_drop]
  refine Iff.trans ?_ (htail.trans ?_)
  · unfold getMapFromBytes count
    rw [← hcounts]
    exact Iff.rfl
  · clear htail
    rw [List.length_drop, List.length_drop, List.length_drop]
    unfold needBoth mapNeeds
    split_ifs <;> omega

/-! ## Messages -/

/-- How long a body has to be for its type byte and its counts. -/
def required (body : List UInt8) : ℕ :=
  let rest := body.drop 1
  1 + match DataType.ofByte (value (body.take 1)) with
    | .welcomeMessage => 18
    | .gameMap => mapNeeds (count rest 0) (count rest 1) (count rest 2)
    | .gameState => gameStateNeeds (count rest 0) (count rest 1)
    | _ => 0

theorem isSome_run_map {α β : Type} (r : Reader α) (f : α → β) (bs : List UInt8) :
    ((r >>= fun a => pure (f a)).run bs).isSome = (r.run bs).isSome := by
  rw [StateT.run_bind]
  cases r.run bs <;> rfl

/-- A body without a type byte is taken for a WELCOME_MESSAGE. -/
theorem length_pos_of_type {body : List UInt8}
    (h : DataType.ofByte (value (body.take 1)) ≠ .welcomeMessage) : 1 ≤ body.length := by
  cases body with
  | nil => exact absurd rfl h
  | cons b bs => exact Nat.succ_le_succ (Nat.zero_le _)

theorem run_readInt (n : ℕ) (bs : List UInt8) :
    (readInt n).run bs = some (value (bs.take n), bs.drop n) := rfl

theorem isSome_readReceived (body : List UInt8) :
    (readReceived.run body).isSome ↔ required body ≤ body.length := by
  have hlength : (body.drop 1).length = body.length - 1 := List.length_drop
  have hpos : DataType.ofByte (value (body.take 1)) ≠ .welcomeMessage → 1 ≤ body.length :=
    length_pos_of_type
  unfold readReceived required
  rw [StateT.run_bind, run_readInt, Option.bind_eq_bind, Option.bind_some]
  dsimp only
  cases htype : DataType.ofByte (value (body.take 1)) with
  | welcomeMessage =>
    have h := (consumes_readInt 2).bind fun myOwnId => consumes_readDouble.bind fun playerRadius =>
      consumes_readDouble.map fun projectileRadius =>
        Received.welcome myOwnId playerRadius projectileRadius
    refine (h.isSome_iff (body.drop 1)).trans ?_
    show 18 ≤ _ ↔ 1 + 18 ≤ _
    omega
  | gameMap =>
    have hbody := hpos (by simp [htype])
    dsimp only
    rw [isSome_run_map, isSome_getMapFromBytes]
    omega
  | gameState =>
    have hbody := hpos (by simp [htype])
    dsimp only
    rw [isSome_run_map, isSome_getGamestateFromBytes]
    omega
  | ping | spawn | shoot | changeOrientation | changeMovementDirection | other =>
    exact iff_of_true rfl (hpos (by simp [htype]))

end Client

open LittleEndian

variable {D F : Type} [ToWord 64 D] [ToWord 32 F]

/-- What `serializeMap` writes, whether or not the counts fit. -/
theorem written_serializeMap (m : GameMap D) : (serializeMap m).written =
    bytes 1 DataType.gameMap.toNat ++ (bytes 2 (UInt16.ofNat m.walls.length).toNat ++
      (bytes 2 (UInt16.ofNat m.obstacles.length).toNat ++
        (bytes 2 (UInt16.ofNat m.borders.length).toNat ++
          (m.walls.flatMap encodeRectangle ++ (m.obstacles.flatMap encodeCircle ++
            m.borders.flatMap encodePoint))))) := by
  unfold serializeMap
  simp only [Buffer.foldl_append copyRectangle_eq, Buffer.foldl_append copyCircle_eq,
    Buffer.foldl_append copyPoint_eq, Buffer.copyToBuf_eq, Buffer.append_append, List.append_assoc]
  rfl

theorem toNat_ofNat_uint16_le (n : ℕ) : (UInt16.ofNat n).toNat ≤ n := by
  rw [UInt16.toNat_ofNat']
  exact Nat.mod_le _ _

namespace Client

/-- The first count of a body. -/
theorem count_zero (n : UInt16) (bs : List UInt8) : count (bytes 2 n.toNat ++ bs) 0 = n.toNat := by
  show value ((bytes 2 n.toNat ++ bs).take 2) = n.toNat
  rw [List.take_left' (length_bytes 2 _), value_bytes_of_lt n.toNat_lt]

/-- The counts behind the first one. -/
theorem count_succ (v : ℕ) (bs : List UInt8) (i : ℕ) :
    count (bytes 2 v ++ bs) (i + 1) = count bs i := by
  have hi : 2 * (i + 1) = 2 + 2 * i := by ring
  unfold count
  rw [hi, ← List.drop_drop, List.drop_left' (length_bytes 2 v)]

end Client

/-- The bytes behind the counts of a map are at least those the counts announce. -/
theorem required_serializeMap (m : GameMap D) :
    Client.required (serializeMap m).written ≤ (serializeMap m).written.length := by
  have hwalls := toNat_ofNat_uint16_le m.walls.length
  have hobstacles := toNat_ofNat_uint16_le m.obstacles.length
  have hborders := toNat_ofNat_uint16_le m.borders.length
  rw [written_serializeMap]
  show 1 + Client.mapNeeds _ _ _ ≤ _
  rw [List.drop_left' (length_bytes 1 _), Client.count_zero, Client.count_succ, Client.count_zero,
    Client.count_succ, Client.count_succ, Client.count_zero]
  simp only [List.length_append, length_bytes, length_flatMap_const length_encodeRectangle,
    length_flatMap_const length_encodeCircle, length_flatMap_const length_encodePoint]
  unfold Client.mapNeeds
  split_ifs <;> omega

/-- The bytes behind the counts of a game state are at least those the counts announce. -/
theorem required_serializeGameState (g : Game D F) :
    Client.required (serializeGameState g).written ≤ (serializeGameState g).written.length := by
  have hplayers := toNat_ofNat_uint16_le g.players.keys.length
  have hprojectiles := toNat_ofNat_uint16_le g.projectiles.length
  have hlen : g.playerList.length = g.players.keys.length := by simp [Game.playerList]
  rw [written_serializeGameState]
  show 1 + Client.gameStateNeeds _ _ ≤ _
  rw [List.drop_left' (length_bytes 1 _), Client.count_zero, Client.count_succ, Client.count_zero]
  simp only [List.length_append, length_bytes, length_flatMap_const length_encodePlayer,
    length_flatMap_const length_encodeProjectile, hlen]
  unfold Client.gameStateNeeds
  split_ifs <;> omega

/-- A message of the host: a game state is one that `serializeGameState` has written. -/
def Outgoing.Built (F : Type) [ToWord 32 F] : Outgoing D → Prop
  | .gameState buffer => ∃ g : Game D F, buffer = serializeGameState g
  | .welcome _ | .map _ | .pingReply _ => True

/-- **What the client accepts.** `receive_message` decodes a body without an exception exactly when
it is as long as `required` says, and every message the host builds is, whatever the numbers of its
players, projectiles, walls, obstacles and border points. -/
theorem accepts_iff [NatCast D] : (∀ body : List UInt8,
      (Client.readReceived.run body).isSome ↔ Client.required body ≤ body.length) ∧
    ∀ message : Outgoing D, message.Built F →
      (Client.readReceived.run message.buffer.written).isSome := by
  refine ⟨Client.isSome_readReceived, fun message hbuilt => (Client.isSome_readReceived _).mpr ?_⟩
  cases message with
  | welcome playerId => exact Nat.le_refl 19
  | map m => exact required_serializeMap m
  | pingReply id => exact Nat.succ_le_succ (Nat.zero_le 2)
  | gameState buffer =>
    obtain ⟨g, rfl⟩ := hbuilt
    exact required_serializeGameState g

/-- The game after a client has joined. -/
def oneJoined : Game (BitVec 64) (BitVec 32) :=
  createNewPlayer Rehash.front (Game.initial ⟨[], ⟨0, 0⟩, ⟨0, 0⟩, [], []⟩) 3

theorem accepts_iff_joined : oneJoined.players.keys = [3] ∧
    (Client.readReceived.run
      (Outgoing.gameState (D := BitVec 64) (serializeGameState oneJoined)).buffer.written).isSome :=
  ⟨rfl, (accepts_iff (F := BitVec 32)).2 (.gameState (serializeGameState oneJoined))
    ⟨oneJoined, rfl⟩⟩

/-- A game state of one player whose scores are cut off is accepted, one byte less is not. -/
example : Client.required (2 :: 1 :: List.replicate 43 0) = 45 := by decide

end PRShooter
