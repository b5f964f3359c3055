import PRShooter.GameStateCodec
import PRShooter.ProjectileRange

/-!
# How much of a game state fits into its message

`serializeGameState` narrows both counts to 16 bits before it allocates and fills the header, and
then writes every player and every projectile. A client may shoot between two ticks as often as it
likes, so the numbers have no bound (`exists_reach_projectiles`).
-/

namespace PRShooter

open LittleEndian

section Bounds

variable {D F : Type} [ToWord 64 D] [ToWord 32 F]

/-- Nothing is written past the end of the buffer, and the counts in the header are those of the
players and of the projectiles, all of which are written behind it. -/
def SerializedSafely (g : Game D F) : Prop :=
  let message := serializeGameState g
  message.written.length ≤ message.allocated ∧
    value ((message.written.drop 1).take 2) = g.players.keys.length ∧
    value ((message.written.drop 3).take 2) = g.projectiles.length ∧
    message.written.drop 5 =
      g.playerList.flatMap encodePlayer ++ g.projectiles.flatMap encodeProjectile

theorem written_serializeGameState (g : Game D F) :
    (serializeGameState g).written = bytes 1 DataType.gameState.toNat ++
      (bytes 2 (UInt16.ofNat g.players.keys.length).toNat ++
        (bytes 2 (UInt16.ofNat g.projectiles.length).toNat ++
          (g.playerList.flatMap encodePlayer ++ g.projectiles.flatMap encodeProjectile))) := by
  have hlen : g.playerList.length = g.players.keys.length := by simp [Game.playerList]
  rw [serializeGameState_append, hlen]
  rfl

/-- The counts in the header are the narrowed ones. -/
theorem header_serializeGameState (g : Game D F) :
    value (((serializeGameState g).written.drop 1).take 2) =
        (UInt16.ofNat g.players.keys.length).toNat ∧
      value (((serializeGameState g).written.drop 3).take 2) =
        (UInt16.ofNat g.projectiles.length).toNat ∧
      (serializeGameState g).written.drop 5 =
        g.playerList.flatMap encodePlayer ++ g.projectiles.flatMap encodeProjectile := by
  have hcount : ∀ (n : UInt16) (bs : List UInt8),
      value ((bytes 2 n.toNat ++ bs).take 2) = n.toNat :=
    fun n bs => by rw [List.take_left' (length_bytes 2 _), value_bytes_of_lt n.toNat_lt]
  rw [written_serializeGameState]
  refine ⟨?_, ?_, ?_⟩
  · rw [List.drop_left' (length_bytes 1 _), hcount]
  · rw [← List.append_assoc, List.drop_left' (by simp), hcount]
  · rw [← List.append_assoc, ← List.append_assoc, List.drop_left' (by simp)]

theorem toNat_ofNat_uint16_iff {n : ℕ} : (UInt16.ofNat n).toNat = n ↔ n < 65536 :=
  ⟨fun h => h ▸ (UInt16.ofNat n).toNat_lt, toNat_ofNat_uint16⟩

/-- **Sizes.** A state is serialized safely exactly when both its counts fit into 16 bits. -/
theorem serializedSafely_iff (g : Game D F) :
    SerializedSafely g ↔ g.players.keys.length < 65536 ∧ g.projectiles.length < 65536 := by
  obtain ⟨hplayers, hprojectiles, hrecords⟩ := header_serializeGameState g
  rw [SerializedSafely, hplayers, hprojectiles, toNat_ofNat_uint16_iff, toNat_ofNat_uint16_iff]
  refine ⟨fun h => ⟨h.2.1, h.2.2.1⟩, fun ⟨hP, hQ⟩ => ⟨?_, hP, hQ, hrecords⟩⟩
  have hbody := length_encodeBody g
  rw [serializeGameState_eq g hP hQ]
  simp only [Buffer.append, Buffer.new, List.nil_append, List.length_append, length_bytes, hbody,
    sizeofPlayer, sizeofProjectile]
  omega

end Bounds

/-! ## A client that keeps shooting -/

/-- With player 0 alive there is a run to any number of projectiles. -/
theorem exists_reach_projectiles (n : ℕ) : ∃ g : Game ℝ ℝ,
    Lts.Reach Game.step Lts.Any (Game.initial squareMap) g ∧ g.projectiles.length = n ∧
      0 ∈ g.players.keys ∧ (g.players.val 0).alive = true := by
  induction n with
  | zero =>
    have hdraw : DrawAllowed squareMap (0, 0) :=
      drawAllowed_squareMap (by norm_num) (by norm_num)
    refine ⟨spawned (0, 0), ?_, rfl, ?_, by rw [val_spawned]; rfl⟩
    · refine (Lts.Reach.refl.tail (i := .connect Rehash.front 0) trivial rfl).tail
        (i := .spawn Rehash.front 0 (0, 0)) trivial ?_
      exact if_pos hdraw
    · exact List.mem_singleton_self 0
  | succ n ih =>
    obtain ⟨g, hreach, hlength, hkey, halive⟩ := ih
    have hshot := shootProjectile_of_alive Rehash.front hkey halive
    refine ⟨_, hreach.tail (i := .shoot Rehash.front 0) trivial (congrArg some hshot), ?_, hkey,
      halive⟩
    simp [hlength]

/-- Player 0 shoots 65536 times between two ticks: the header counts no projectile. -/
theorem counts_wrap : ¬ ∀ (m : GameMap ℝ) (g : Game ℝ ℝ),
    Lts.Reach Game.step Lts.Any (Game.initial m) g → SerializedSafely g := by
  intro h
  obtain ⟨g, hreach, hlength, -⟩ := exists_reach_projectiles 65536
  have hsafe := (h squareMap g hreach).2.2.1
  rw [(header_serializeGameState g).2.1, hlength] at hsafe
  exact absurd hsafe (by decide)

end PRShooter
