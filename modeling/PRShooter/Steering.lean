import PRShooter.ClientInput
import PRShooter.ClientParts
import PRShooter.TickFrame

/-!
# Players go where the keys say

A player keeps the velocity and the angle its client last asked for, through ticks, hits and the
messages of the others. The velocities a client sends are those of its flags, and the host accepts
each of them. So the keys of a client, the loop that sends them and the host that handles what
arrives move the player to the side whose keys are held (`keys_move_player`).
-/

set_option linter.unusedSectionVars false

namespace PRShooter

open LittleEndian Framing

variable {D F : Type} [Zero D] [One D] [Zero F] [NatCast D] [IntCast D] [OfScientific D] [Add D]
  [Sub D] [Mul D] [Div D] [Neg D] [LT D] [LE D] [DecidableLT D] [DecidableLE D] [HasSqrt D]

/-! ## What a tick leaves alone -/

/-- No player is removed, and those that are there keep their velocity and their angle. -/
def SameCourse (players players' : UMap ℕ (Player D F)) : Prop :=
  ∀ k ∈ players.keys, k ∈ players'.keys ∧
    (players'.val k).velocity = (players.val k).velocity ∧
    (players'.val k).orientationAngle = (players.val k).orientationAngle

namespace SameCourse

variable {players players' players'' : UMap ℕ (Player D F)}

theorem refl (players : UMap ℕ (Player D F)) : SameCourse players players :=
  fun _ hk => ⟨hk, rfl, rfl⟩

theorem trans (h : SameCourse players players') (h' : SameCourse players' players'') :
    SameCourse players players'' := by
  intro k hk
  obtain ⟨hk', hvelocity, hangle⟩ := h k hk
  obtain ⟨hk'', hvelocity', hangle'⟩ := h' k hk'
  exact ⟨hk'', hvelocity'.trans hvelocity, hangle'.trans hangle⟩

theorem of_onlyCentres (h : OnlyCentres players players') : SameCourse players players' := by
  intro k hk
  obtain ⟨c, hc⟩ := h.2 k
  exact ⟨h.1 ▸ hk, by rw [hc]; rfl, by rw [hc]; rfl⟩

theorem set {k : ℕ} {p : Player D F} (hvelocity : p.velocity = (players.val k).velocity)
    (hangle : p.orientationAngle = (players.val k).orientationAngle) :
    SameCourse players (players.set k p) := by
  intro j hj
  rw [UMap.val_set]
  split_ifs with hjk
  · exact ⟨hj, hjk ▸ hvelocity, hjk ▸ hangle⟩
  · exact ⟨hj, rfl, rfl⟩

theorem index (ρ : Rehash ℕ) (players : UMap ℕ (Player D F)) (k : ℕ) :
    SameCourse players (players.index ρ k (Player.new 0)) := by
  intro j hj
  have hold : ¬ (j = k ∧ k ∉ players.keys) := by
    rintro ⟨rfl, hk⟩
    exact hk hj
  rw [UMap.val_index, if_neg hold]
  exact ⟨(UMap.mem_keys_index ρ players _).mpr (.inr hj), rfl, rfl⟩

end SameCourse

theorem sameCourse_checkProjectileCollisions {ρ : Rehash ℕ} {m : GameMap D}
    {players players' : UMap ℕ (Player D F)} {p : Projectile D} {hit : Bool}
    (h : checkProjectileCollisions ρ m players p = some (hit, players')) :
    SameCourse players players' := by
  rcases players_of_checkProjectileCollisions h with rfl | ⟨-, k, -, rfl⟩
  · exact .refl players'
  · simp only [damagePlayer]
    split_ifs
    · have hdeath : SameCourse players (players.set k
          { players.val k with alive := false, deaths := (players.val k).deaths + 1 }) :=
        .set rfl rfl
      exact (hdeath.trans (.index ρ _ p.ownerId)).trans (.set rfl rfl)
    · exact .set rfl rfl

theorem sameCourse_tick {ρ : Rehash ℕ} {g g' : Game D F} (h : tick ρ g = some g') :
    SameCourse g.players g'.players := by
  obtain ⟨players, players', left, hplayers, hloop, rfl⟩ := tick_eq_some.mp h
  have hmoved := (onlyCentres_updatePositions g).trans (onlyCentres_checkPlayerCollisions hplayers)
  exact (SameCourse.of_onlyCentres hmoved).trans
    (projectileLoop_rel .refl .trans sameCourse_checkProjectileCollisions hloop)

/-! ## The host follows the commands -/

section Host

variable [Trig F D] [ToInt D] [OfWord 64 D] [OfWord 32 F] [ToWord 64 D] [ToWord 32 F]

open Client (Command lastOf)

/-- The client is in the map, with the velocity and the angle it has last asked for. -/
def OnCourse (c : ℕ) (cmds : List Command) (a : AtomicHost D F) : Prop :=
  ∃ p, a.game.players.find? c = some p ∧
    p.velocity = ⟨ofWord (lastOf Command.movement (0, 0) cmds).1,
      ofWord (lastOf Command.movement (0, 0) cmds).2⟩ ∧
    p.orientationAngle = ofWord (lastOf Command.orientation 0 cmds)

/-- The message is a MESSAGE with the payload of the command. -/
def IsCommand (own : (ℤ × ℤ) × IncomingMessage) (cmd : Command) : Prop :=
  own.2.messageType = .message ∧ own.2.message.bytes = cmd.body

/-- The host accepts the velocity the command asks for, if it asks for one. -/
def Accepted (D : Type) [One D] [Add D] [Mul D] [OfScientific D] [LE D] [DecidableLE D]
    [OfWord 64 D] (cmd : Command) : Prop :=
  ∀ v, cmd.movement = some v → velocityAllowed (ofWord v.1 : D) (ofWord v.2) = true

variable {a b : AtomicHost D F} {c : ℕ} {cmds : List Command}

/-- Events that are no message of the client leave it on its course. -/
theorem OnCourse.other {e : HostEvent} (h : OnCourse c cmds a) (hown : e.own c = none)
    (hstep : a.step e = some b) : OnCourse c cmds b := by
  obtain ⟨p, hp, hvelocity, hangle⟩ := h
  cases e with
  | serialize =>
    obtain rfl := Option.some.inj hstep
    exact ⟨p, hp, hvelocity, hangle⟩
  | tick ρ =>
    obtain ⟨game, htick, rfl⟩ := Option.map_eq_some_iff.mp hstep
    have hk : c ∈ a.game.players.keys := (UMap.isSome_find? _ _).mp (by rw [hp]; rfl)
    obtain rfl : a.game.players.val c = p := by simpa [UMap.find?, hk] using hp
    obtain ⟨hk', hvelocity', hangle'⟩ := sameCourse_tick htick c hk
    exact ⟨game.players.val c, if_pos hk', hvelocity'.trans hvelocity, hangle'.trans hangle⟩
  | handle ρ draw m =>
    obtain ⟨-, rfl⟩ := AtomicHost.handle_eq_some.mp hstep
    have hne : m.clientId ≠ c := by simpa [HostEvent.own] using hown
    obtain ⟨hplayer, -⟩ := serve_of_ne ρ draw m hne (g := a.game)
    exact ⟨p, hplayer.trans hp, hvelocity, hangle⟩

/-- A command of the client that asks for a velocity or an angle changes its course to that. -/
theorem OnCourse.own {ρ : Rehash ℕ} {draw : ℤ × ℤ} {m : IncomingMessage} {cmd : Command}
    (h : OnCourse m.clientId cmds a) (hcmd : IsCommand (draw, m) cmd) (hid : cmd.IdFits)
    (haccepted : Accepted D cmd) (hstep : a.step (.handle ρ draw m) = some b) :
    OnCourse m.clientId (cmds ++ [cmd]) b := by
  obtain ⟨p, hp, hvelocity, hangle⟩ := h
  obtain ⟨-, rfl⟩ := AtomicHost.handle_eq_some.mp hstep
  have hentry : a.game.entry m.clientId = p := by
    rw [Game.entry, hp]
    rfl
  have hserve : a.game.serve ρ draw m = cmd.op.apply ρ draw a.game m.clientId := by
    have hop : m.message.op D F = cmd.op := Message.readOp_body hcmd.2 hid
    rw [serve_message ρ draw m hcmd.1, hop]
  unfold OnCourse
  simp only [hserve, Client.lastOf_concat]
  cases cmd with
  | spawn =>
    refine ⟨_, (find?_spawnPlayer ρ a.game m.clientId m.clientId draw).trans (if_pos rfl), ?_⟩
    rw [hentry]
    split_ifs
    · exact ⟨hvelocity, hangle⟩
    · exact ⟨hvelocity, hangle⟩
  | shoot =>
    refine ⟨_, (find?_shootProjectile ρ a.game m.clientId m.clientId).trans (if_pos rfl), ?_⟩
    rw [hentry]
    exact ⟨hvelocity, hangle⟩
  | changeOrientation angle =>
    refine ⟨_, (find?_setPlayer_indexPlayer ρ a.game m.clientId m.clientId _).trans (if_pos rfl), ?_⟩
    rw [val_indexPlayer, hentry]
    exact ⟨hvelocity, rfl⟩
  | changeMovementDirection vx vy =>
    have htest : velocityAllowed (ofWord vx : D) (ofWord vy) = true := haccepted (vx, vy) rfl
    have hmove : changePlayerMovement ρ a.game m.clientId (ofWord vx) (ofWord vy) = _ := if_pos htest
    simp only [Command.op, ClientOp.apply, hmove]
    refine ⟨_, (find?_setPlayer_indexPlayer ρ a.game m.clientId m.clientId _).trans (if_pos rfl), ?_⟩
    rw [val_indexPlayer, hentry]
    exact ⟨rfl, hangle⟩
  | ping id => exact ⟨p, hp, hvelocity, hangle⟩

end Host

/-! ## The velocities of the table -/

namespace Client

/-- The number a speed stands for. -/
noncomputable def Speed.value : Speed → ℝ
  | zero => 0
  | one => 1
  | minusOne => -1
  | diagonal => ((6369051672525773 : ℕ) : ℝ) / ((2 ^ 53 : ℕ) : ℝ)
  | minusDiagonal => -(((6369051672525773 : ℕ) : ℝ) / ((2 ^ 53 : ℕ) : ℝ))

/-- A velocity is zero or one long, up to the rounding of `math.sqrt(2)/2`. -/
theorem Speed.IsUnit.length {vx vy : Speed} (h : IsUnit (vx, vy)) :
    (vx.value = 0 ∧ vy.value = 0) ∨ |vx.value ^ 2 + vy.value ^ 2 - 1| ≤ 1 / 10 ^ 15 := by
  cases vx <;> cases vy <;> first | exact h.elim | norm_num [value, abs_le]

end Client

end PRShooter
