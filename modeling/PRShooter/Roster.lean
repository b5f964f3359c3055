import PRShooter.ProjectilePath
import PRShooter.Payload

/-!
# The players map is the set of connected clients

A run of the game takes the events of each client in the order NEW_CONNECTION, MESSAGE*,
LOST_CONNECTION, interleaved with those of the other clients and with ticks. The keys of `players`
are then the clients that are connected, except where a projectile kills after its owner has left:
`++players[projectile.owner_id].kills` inserts a default player under the owner's id
(`OrphanKill`). A run keeps the roster exactly when it has no such kill.
-/

set_option linter.unusedSectionVars false

namespace PRShooter

variable {D F : Type} [Zero D] [One D] [Zero F] [NatCast D] [IntCast D] [OfScientific D] [Add D]
  [Sub D] [Mul D] [Div D] [Neg D] [LT D] [LE D] [DecidableLT D] [DecidableLE D] [HasSqrt D]

/-! ## Runs of the game -/

/-- The game, the clients whose NEW_CONNECTION has been handled and those whose LOST_CONNECTION
has. -/
structure Session (D F : Type) where
  game : Game D F
  joined : List ℕ
  left : List ℕ

/-- An event of a client, or of the update and send threads. -/
inductive HostEvent where
  | handle (ρ : Rehash ℕ) (draw : ℤ × ℤ) (m : IncomingMessage)
  | tick (ρ : Rehash ℕ)
  | serialize

namespace Session

/-- The session of a host on a map that nobody has joined. -/
def start (m : GameMap D) : Session D F := ⟨Game.initial m, [], []⟩

/-- The client is connected, as far as the host has been told. -/
def Online (s : Session D F) (c : ℕ) : Prop := c ∈ s.joined ∧ c ∉ s.left

/-- The event comes in the order every client keeps to; client ids are not reused. -/
def InOrder (s : Session D F) (m : IncomingMessage) : Prop :=
  match m.messageType with
  | .newConnection => m.clientId ∉ s.joined ∧ m.clientId ∉ s.left
  | .lostConnection | .message => m.clientId ∈ s.joined ∧ m.clientId ∉ s.left
  | .empty => True

instance (s : Session D F) (m : IncomingMessage) : Decidable (s.InOrder m) := by
  unfold InOrder
  cases m.messageType <;> infer_instance

/-- The clients that have joined and left after the event. -/
def record (s : Session D F) (m : IncomingMessage) (g : Game D F) : Session D F :=
  match m.messageType with
  | .newConnection => { game := g, joined := m.clientId :: s.joined, left := s.left }
  | .lostConnection => { game := g, joined := s.joined, left := m.clientId :: s.left }
  | .message | .empty => { s with game := g }

/-- One step of the session. `serializeGameState` only reads the game. -/
def step [Trig F D] [OfWord 64 D] [OfWord 32 F] (s : Session D F) : HostEvent → Option (Session D F)
  | .handle ρ draw m =>
    if s.InOrder m then some (s.record m ((handleMessage ρ draw s.game m).run []).1.1) else none
  | .tick ρ => (PRShooter.tick ρ s.game).map fun g => { s with game := g }
  | .serialize => some s

end Session

/-- The keys of `players` are the connected clients, and each entry carries its own id. -/
def RosterOk (s : Session D F) : Prop :=
  (∀ k, k ∈ s.game.players.keys ↔ s.Online k) ∧
    ∀ k ∈ s.game.players.keys, (s.game.players.val k).playerId = k

/-! ## Kills by projectiles without an owner -/

/-- Examining `p` kills a player, and the owner of `p` is not in the map any more. -/
def OrphanKill (m : GameMap D) (players : UMap ℕ (Player D F)) (p : Projectile D) : Prop :=
  p.ownerId ∉ players.keys ∧ p.hitsObject m = false ∧
    ∃ k, p.hitPlayer players = some k ∧ (players.val k).health ≤ Constants.projectileDamage

/-- No projectile of the loop is an orphan that kills when it is examined. -/
def NoOrphanKill (ρ : Rehash ℕ) (m : GameMap D) :
    UMap ℕ (Player D F) → List (Projectile D) → Prop
  | _, [] => True
  | players, p :: ps => ¬ OrphanKill m players p ∧
      ∀ hit players', checkProjectileCollisions ρ m players p = some (hit, players') →
        NoOrphanKill ρ m players' ps

/-- In the projectile loop of the tick no projectile kills after its owner has left. -/
def TickSpares (ρ : Rehash ℕ) (g : Game D F) : Prop :=
  ∀ players, checkPlayerCollisions g.gameMap (updatePositions g).players = some players →
    NoOrphanKill ρ g.gameMap players (g.projectiles.map Projectile.advance)

/-- The condition on the state before an event. -/
def HostEvent.Spares (s : Session D F) : HostEvent → Prop
  | .tick ρ => TickSpares ρ s.game
  | .handle .. | .serialize => True

/-! ## The keys and ids after each operation -/

/-- The same keys and the same id under each of them. -/
def SameIds (players players' : UMap ℕ (Player D F)) : Prop :=
  players'.keys = players.keys ∧
    ∀ k, (players'.val k).playerId = (players.val k).playerId

namespace SameIds

variable {players players' players'' : UMap ℕ (Player D F)}

theorem refl (players : UMap ℕ (Player D F)) : SameIds players players := ⟨rfl, fun _ => rfl⟩

theorem trans (h : SameIds players players') (h' : SameIds players' players'') :
    SameIds players players'' :=
  ⟨h'.1.trans h.1, fun k => (h'.2 k).trans (h.2 k)⟩

theorem set {k : ℕ} {p : Player D F} (h : p.playerId = (players.val k).playerId) :
    SameIds players (players.set k p) := by
  refine ⟨rfl, fun j => ?_⟩
  rw [UMap.val_set]
  split_ifs with hj
  · rw [hj, h]
  · rfl

theorem of_onlyCentres (h : OnlyCentres players players') : SameIds players players' :=
  ⟨h.1, h.playerId⟩

end SameIds

theorem sameIds_damagePlayer (ρ : Rehash ℕ) {players : UMap ℕ (Player D F)} {ownerId k : ℕ}
    (h : (players.val k).health ≤ Constants.projectileDamage → ownerId ∈ players.keys) :
    SameIds players (damagePlayer ρ players ownerId k) := by
  simp only [damagePlayer]
  split_ifs with hhealth
  · rw [UMap.index_of_mem _ _ (show ownerId ∈ (players.set k _).keys from h hhealth)]
    have hdeath : SameIds players (players.set k
        { players.val k with alive := false, deaths := (players.val k).deaths + 1 }) := .set rfl
    exact hdeath.trans (.set rfl)
  · exact .set rfl

theorem sameIds_checkProjectileCollisions {ρ : Rehash ℕ} {m : GameMap D}
    {players players' : UMap ℕ (Player D F)} {p : Projectile D} {hit : Bool}
    (h : checkProjectileCollisions ρ m players p = some (hit, players'))
    (hspare : ¬ OrphanKill m players p) : SameIds players players' := by
  rcases players_of_checkProjectileCollisions h with rfl | ⟨hobject, k, hk, rfl⟩
  · exact .refl players'
  · refine sameIds_damagePlayer ρ fun hhealth => ?_
    by_contra howner
    exact hspare ⟨howner, hobject, k, hk, hhealth⟩

/-- A kill inserts its owner. -/
theorem owner_mem_of_orphanKill {ρ : Rehash ℕ} {m : GameMap D}
    {players players' : UMap ℕ (Player D F)} {p : Projectile D} {hit : Bool}
    (h : checkProjectileCollisions ρ m players p = some (hit, players'))
    (horphan : OrphanKill m players p) : p.ownerId ∈ players'.keys := by
  obtain ⟨-, hobj, k, hk, hhealth⟩ := horphan
  unfold checkProjectileCollisions at h
  rw [hobj, hk] at h
  obtain ⟨-, rfl⟩ := Prod.mk.inj (Option.some.inj h)
  simp [damagePlayer, hhealth]

/-- A loop without orphan kills keeps keys and ids. -/
theorem sameIds_projectileLoop {ρ : Rehash ℕ} {m : GameMap D} {ps : List (Projectile D)} :
    ∀ {players players' : UMap ℕ (Player D F)} {left : List (Projectile D)},
      projectileLoop ρ m players ps = some (players', left) → NoOrphanKill ρ m players ps →
        SameIds players players' := by
  induction ps with
  | nil =>
    intro players players' left h _
    obtain ⟨rfl, -⟩ := Prod.mk.inj (Option.some.inj h)
    exact .refl players
  | cons p ps ih =>
    intro players players' left h hspare
    obtain ⟨hit, players'', left', hcheck, hloop, -⟩ := projectileLoop_cons h
    exact (sameIds_checkProjectileCollisions hcheck hspare.1).trans
      (ih hloop (hspare.2 hit players'' hcheck))

/-- A loop that adds no key has no orphan kill. -/
theorem noOrphanKill_of_keys {ρ : Rehash ℕ} {m : GameMap D} {ps : List (Projectile D)} :
    ∀ {players players' : UMap ℕ (Player D F)} {left : List (Projectile D)},
      projectileLoop ρ m players ps = some (players', left) → players'.keys ⊆ players.keys →
        NoOrphanKill ρ m players ps := by
  induction ps with
  | nil => intros; trivial
  | cons p ps ih =>
    intro players players' left h hkeys
    obtain ⟨hit, players'', left', hcheck, hloop, -⟩ := projectileLoop_cons h
    have hfirst := (onlyHits_checkProjectileCollisions hcheck).keys
    have hrest := (onlyHits_projectileLoop hloop).keys
    constructor
    · intro horphan
      exact horphan.1 (hkeys (hrest (owner_mem_of_orphanKill hcheck horphan)))
    · intro hit' players₃ hcheck'
      obtain ⟨-, rfl⟩ := Prod.mk.inj (Option.some.inj (hcheck.symm.trans hcheck'))
      exact ih hloop (List.Subset.trans hkeys hfirst)

/-! ## The steps of a session -/

section Steps

variable [Trig F D]

theorem sameIds_indexPlayer (ρ : Rehash ℕ) {g : Game D F} {c : ℕ} (h : c ∈ g.players.keys) :
    g.indexPlayer ρ c = g := by
  unfold Game.indexPlayer
  rw [UMap.index_of_mem ρ _ h]

/-- A message of a client that is in the map changes neither keys nor ids. -/
theorem sameIds_apply (ρ : Rehash ℕ) (draw : ℤ × ℤ) {g : Game D F} {c : ℕ}
    (h : c ∈ g.players.keys) (op : ClientOp D F) :
    SameIds g.players (op.apply ρ draw g c).1.players := by
  cases op with
  | spawn =>
    simp only [ClientOp.apply, spawnPlayer, sameIds_indexPlayer ρ h]
    split_ifs
    · exact .set rfl
    · exact .refl _
  | shoot =>
    simp only [ClientOp.apply, shootProjectile, sameIds_indexPlayer ρ h]
    split_ifs <;> exact .refl _
  | changeOrientation angle =>
    simp only [ClientOp.apply, changePlayerOrientation, sameIds_indexPlayer ρ h]
    exact .set rfl
  | changeMovementDirection velocityX velocityY =>
    simp only [ClientOp.apply, changePlayerMovement, sameIds_indexPlayer ρ h]
    split_ifs
    · exact .set rfl
    · exact .refl _
  | ping id => exact .refl _
  | unknown => exact .refl _

theorem rosterOk_of_sameIds {s : Session D F} {g : Game D F} (hs : RosterOk s)
    (h : SameIds s.game.players g.players) : RosterOk { s with game := g } := by
  refine ⟨fun k => ?_, fun k hk => ?_⟩
  · show k ∈ g.players.keys ↔ _
    rw [h.1]
    exact hs.1 k
  · have hk' : k ∈ s.game.players.keys := h.1 ▸ hk
    exact (h.2 k).trans (hs.2 k hk')

variable [OfWord 64 D] [OfWord 32 F]

theorem rosterOk_handle (ρ : Rehash ℕ) (draw : ℤ × ℤ) {m : IncomingMessage} {s : Session D F}
    (hs : RosterOk s) (horder : s.InOrder m) :
    RosterOk (s.record m ((handleMessage ρ draw s.game m).run []).1.1) := by
  obtain ⟨type, c, payload⟩ := m
  cases type with
  | empty => exact hs
  | newConnection =>
    obtain ⟨hnew, hleft⟩ : c ∉ s.joined ∧ c ∉ s.left := horder
    refine ⟨fun k => ?_, fun k hk => ?_⟩
    · show k ∈ (s.game.players.insert ρ c (Player.new c)).keys ↔ k ∈ c :: s.joined ∧ k ∉ s.left
      rw [UMap.mem_keys_insert, hs.1 k, Session.Online, List.mem_cons]
      constructor
      · rintro (rfl | ⟨hjoined, hk⟩)
        · exact ⟨.inl rfl, hleft⟩
        · exact ⟨.inr hjoined, hk⟩
      · rintro ⟨rfl | hjoined, hk⟩
        · exact .inl rfl
        · exact .inr ⟨hjoined, hk⟩
    · have hk' : k ∈ (s.game.players.insert ρ c (Player.new c)).keys := hk
      show ((s.game.players.insert ρ c (Player.new c)).val k).playerId = k
      rw [UMap.val_insert]
      split_ifs with hkc
      · exact hkc.symm
      · exact hs.2 k (by simpa [hkc] using hk')
  | lostConnection =>
    refine ⟨fun k => ?_, fun k hk => ?_⟩
    · show k ∈ (s.game.players.erase c).keys ↔ k ∈ s.joined ∧ k ∉ c :: s.left
      rw [UMap.mem_keys_erase, hs.1 k, Session.Online, List.mem_cons]
      tauto
    · exact hs.2 k ((UMap.mem_keys_erase _).mp hk).2
  | message =>
    have hc : c ∈ s.game.players.keys := (hs.1 c).mpr horder
    have hrun := run_handleMessage_message ρ draw s.game c payload
    simp only [Session.record, hrun]
    exact rosterOk_of_sameIds hs (sameIds_apply ρ draw hc _)

/-- A tick keeps the roster exactly when it has no orphan kill. -/
theorem rosterOk_tick_iff {ρ : Rehash ℕ} {s : Session D F} {g : Game D F} (hs : RosterOk s)
    (h : tick ρ s.game = some g) :
    TickSpares ρ s.game ↔ RosterOk { s with game := g } := by
  obtain ⟨players, players', projectiles, hplayers, hloop, rfl⟩ := tick_eq_some.mp h
  have hmoved : SameIds s.game.players players :=
    .of_onlyCentres ((onlyCentres_updatePositions s.game).trans
      (onlyCentres_checkPlayerCollisions hplayers))
  constructor
  · intro hspare
    exact rosterOk_of_sameIds hs
      (hmoved.trans (sameIds_projectileLoop hloop (hspare players hplayers)))
  · intro hroster q hq
    obtain rfl : players = q := Option.some.inj (hplayers.symm.trans hq)
    refine noOrphanKill_of_keys hloop fun k hk => ?_
    rw [hmoved.1]
    exact (hs.1 k).mpr ((hroster.1 k).mp hk)

theorem rosterOk_step_iff {s t : Session D F} {e : HostEvent} (hs : RosterOk s)
    (h : s.step e = some t) : e.Spares s ↔ RosterOk t := by
  cases e with
  | handle ρ draw m =>
    simp only [Session.step] at h
    split_ifs at h with horder
    obtain rfl := Option.some.inj h
    exact iff_of_true trivial (rosterOk_handle ρ draw hs horder)
  | tick ρ =>
    obtain ⟨g, hg, rfl⟩ := Option.map_eq_some_iff.mp h
    exact rosterOk_tick_iff hs hg
  | serialize =>
    obtain rfl := Option.some.inj h
    exact iff_of_true trivial hs

theorem rosterOk_start (m : GameMap D) : RosterOk (Session.start m : Session D F) :=
  ⟨fun k => by simp [Session.start, Session.Online, Game.initial], by simp [Session.start,
    Game.initial]⟩

/-- **The roster.** In a run from the start the keys of `players` are the connected clients in
every state, each with its own id, exactly when in no tick of the run a projectile kills after its
owner has left. -/
theorem roster_iff_spares (m : GameMap D) (es : List HostEvent) (t : Session D F)
    (h : Lts.run Session.step es (Session.start m : Session D F) = some t) :
    Lts.Always Session.step RosterOk es (Session.start m : Session D F) ↔
      Lts.Along Session.step (fun (s : Session D F) e => e.Spares s) es (Session.start m) :=
  Lts.always_iff_along (fun _ _ _ hs hstep => rosterOk_step_iff hs hstep) h (rosterOk_start m)

end Steps

/-! ## A client joins and leaves -/

/-- An event without payload. -/
def connectionEvent (type : MessageType) (c : ℕ) : HostEvent :=
  .handle Rehash.front (0, 0) ⟨type, c, Message.ofBytes []⟩

/-- A MESSAGE that consists of the type byte; `draw` is used by a SPAWN. -/
def typeEvent (type : DataType) (draw : ℤ × ℤ) (c : ℕ) : HostEvent :=
  .handle Rehash.front draw ⟨.message, c, Message.ofBytes [UInt8.ofNat type.toNat]⟩

section Scenario

variable [Trig F D] [OfWord 64 D] [OfWord 32 F] {s : Session D F} {c : ℕ}

theorem step_newConnection (h : c ∉ s.joined) (h' : c ∉ s.left) :
    s.step (connectionEvent .newConnection c) =
      some ⟨createNewPlayer Rehash.front s.game c, c :: s.joined, s.left⟩ :=
  have horder : s.InOrder ⟨.newConnection, c, Message.ofBytes []⟩ := ⟨h, h'⟩
  if_pos horder

theorem step_lostConnection (h : c ∈ s.joined) (h' : c ∉ s.left) :
    s.step (connectionEvent .lostConnection c) =
      some ⟨deletePlayer s.game c, s.joined, c :: s.left⟩ :=
  have horder : s.InOrder ⟨.lostConnection, c, Message.ofBytes []⟩ := ⟨h, h'⟩
  if_pos horder

theorem step_spawn (h : c ∈ s.joined) (h' : c ∉ s.left) (draw : ℤ × ℤ) :
    s.step (typeEvent .spawn draw c) =
      some { s with game := spawnPlayer Rehash.front s.game c draw } :=
  have horder : s.InOrder ⟨.message, c, Message.ofBytes [10]⟩ := ⟨h, h'⟩
  if_pos horder

theorem step_shoot (h : c ∈ s.joined) (h' : c ∉ s.left) (draw : ℤ × ℤ) :
    s.step (typeEvent .shoot draw c) =
      some { s with game := shootProjectile Rehash.front s.game c } :=
  have horder : s.InOrder ⟨.message, c, Message.ofBytes [11]⟩ := ⟨h, h'⟩
  if_pos horder

end Scenario

theorem roster_iff_spares_visit :
    Lts.Always Session.step RosterOk
      [connectionEvent .newConnection 1, .tick Rehash.front, connectionEvent .lostConnection 1]
      (Session.start squareMap : Session ℝ ℝ) := by
  let joined : Session ℝ ℝ :=
    ⟨createNewPlayer Rehash.front (Game.initial squareMap) 1, [1], []⟩
  have hjoin : (Session.start squareMap : Session ℝ ℝ).step (connectionEvent .newConnection 1)
      = some joined := step_newConnection List.not_mem_nil List.not_mem_nil
  obtain ⟨g, hg⟩ := Option.isSome_iff_exists.mp
    (tick_isSome (g := joined.game) convexBorder_squareMap.1 Rehash.front)
  have htick : joined.step (.tick Rehash.front) = some ⟨g, [1], []⟩ := by
    simp [Session.step, hg, joined]
  have hleave : (⟨g, [1], []⟩ : Session ℝ ℝ).step (connectionEvent .lostConnection 1)
      = some ⟨deletePlayer g 1, [1], [1]⟩ := step_lostConnection (by simp) List.not_mem_nil
  refine (roster_iff_spares squareMap _ ⟨deletePlayer g 1, [1], [1]⟩ ?_).mpr
    ⟨trivial, fun s hs => ⟨?_, fun _ _ => ⟨trivial, fun _ _ => trivial⟩⟩⟩
  · simp [hjoin, htick, hleave]
  · obtain rfl : joined = s := Option.some.inj (hjoin.symm.trans hs)
    intro players _
    exact trivial

/-! ## A kill after the owner has left -/

section Barrage

/-- What decides whether a player is hit has not changed. -/
theorem hitPlayer_set {players : UMap ℕ (Player D F)} {k : ℕ} {q : Player D F}
    (halive : q.alive = (players.val k).alive) (hcircle : q.toCircle = (players.val k).toCircle)
    (p : Projectile D) : p.hitPlayer (players.set k q) = p.hitPlayer players := by
  unfold Projectile.hitPlayer
  refine List.find?_congr fun j _ => ?_
  rw [UMap.val_set]
  split_ifs with hj
  · rw [hj, halive, hcircle]
  · rfl

/-- Projectiles that all hit the same player kill it once there are enough of them for its health,
and the kill is written to the owner. -/
theorem owner_mem_of_barrage {ρ : Rehash ℕ} {m : GameMap D} {p : Projectile D} {k : ℕ}
    (hobject : p.hitsObject m = false) (n : ℕ) :
    ∀ {players players' : UMap ℕ (Player D F)} {left : List (Projectile D)},
      projectileLoop ρ m players (List.replicate (n + 1) p) = some (players', left) →
      p.hitPlayer players = some k → (players.val k).health.toNat = 10 * (n + 1) →
      p.ownerId ∈ players'.keys := by
  induction n with
  | zero =>
    intro players players' left h hhit hhealth
    obtain ⟨hit, players'', left', hcheck, hloop, -⟩ := projectileLoop_cons h
    obtain ⟨rfl, -⟩ := Prod.mk.inj (Option.some.inj hloop)
    by_cases howner : p.ownerId ∈ players.keys
    · exact (onlyHits_checkProjectileCollisions hcheck).keys howner
    · refine owner_mem_of_orphanKill hcheck ⟨howner, hobject, k, hhit, ?_⟩
      rw [UInt8.le_iff_toNat_le, hhealth]
      decide
  | succ n ih =>
    intro players players' left h hhit hhealth
    obtain ⟨hit, players'', left', hcheck, hloop, -⟩ := projectileLoop_cons h
    have hdamage : players'' = players.set k
        { players.val k with health := (players.val k).health - Constants.projectileDamage } := by
      have hsurvives : ¬ (players.val k).health ≤ Constants.projectileDamage := by
        rw [UInt8.le_iff_toNat_le, hhealth]
        show ¬ 10 * (n + 1 + 1) ≤ 10
        omega
      simp only [checkProjectileCollisions, hobject, hhit, damagePlayer, if_neg hsurvives] at hcheck
      simpa using (Prod.mk.inj (Option.some.inj hcheck)).2.symm
    subst hdamage
    refine ih hloop ?_ ?_
    · rw [hitPlayer_set]
      exacts [hhit, rfl, rfl]
    have hle : Constants.projectileDamage ≤ (players.val k).health := by
      rw [UInt8.le_iff_toNat_le, hhealth]
      show 10 ≤ 10 * (n + 1 + 1)
      omega
    rw [UMap.val_set_self, UInt8.toNat_sub_of_le _ _ hle, hhealth]
    show 10 * (n + 1 + 1) - 10 = 10 * (n + 1)
    omega

variable [Trig F D] [OfWord 64 D] [OfWord 32 F]

theorem run_shots (n : ℕ) (draw : ℤ × ℤ) (g : Game D F) {joined left : List ℕ} {c : ℕ}
    (hjoined : c ∈ joined) (hleft : c ∉ left) (hkey : c ∈ g.players.keys)
    (halive : (g.players.val c).alive = true) :
    Lts.run Session.step (List.replicate n (typeEvent .shoot draw c)) ⟨g, joined, left⟩ =
      some ⟨{ g with
        projectiles := g.projectiles ++ List.replicate n ((g.players.val c).projectile c) },
        joined, left⟩ := by
  induction n generalizing g with
  | zero => simp
  | succ n ih =>
    rw [List.replicate_succ, Lts.run_cons, step_shoot hjoined hleft,
      shootProjectile_of_alive _ hkey halive, Option.bind_some]
    refine (ih { g with
      projectiles := g.projectiles ++ [(g.players.val c).projectile c] } hkey halive).trans ?_
    simp [List.replicate_succ]

end Barrage

/-- Players 1 and 2 have spawned on the square, 60 apart. -/
def duel : Game ℝ ℝ :=
  spawnPlayer Rehash.front (spawnPlayer Rehash.front
    (createNewPlayer Rehash.front (createNewPlayer Rehash.front (Game.initial squareMap) 1) 2)
    1 (0, 0)) 2 (60, 0)

/-- Player 1 fires ten times and leaves before the next tick. -/
def duelEvents : List HostEvent :=
  [connectionEvent .newConnection 1, connectionEvent .newConnection 2, typeEvent .spawn (0, 0) 1,
    typeEvent .spawn (60, 0) 2] ++ List.replicate 10 (typeEvent .shoot (0, 0) 1) ++
    [connectionEvent .lostConnection 1]

/-- The projectile of each shot. -/
noncomputable def duelShot : Projectile ℝ := (newlySpawned 1 (0, 0)).projectile 1

/-- The game when player 1 has left. -/
noncomputable def abandoned : Game ℝ ℝ :=
  deletePlayer { duel with projectiles := List.replicate 10 duelShot } 1

theorem run_duelEvents : Lts.run Session.step duelEvents (Session.start squareMap) =
    some ⟨abandoned, [2, 1], [1]⟩ := by
  have hshots := run_shots 10 (0, 0) duel (show 1 ∈ [2, 1] by simp) List.not_mem_nil (by decide) rfl
  have hjoins : Lts.run Session.step [connectionEvent .newConnection 1,
      connectionEvent .newConnection 2, typeEvent .spawn (0, 0) 1, typeEvent .spawn (60, 0) 2]
      (Session.start squareMap) = some (⟨duel, [2, 1], []⟩ : Session ℝ ℝ) := by
    rw [Lts.run_cons, step_newConnection (by simp [Session.start]) (by simp [Session.start]),
      Option.bind_some, Lts.run_cons, step_newConnection (by simp [Session.start])
      (by simp [Session.start]), Option.bind_some, Lts.run_cons, step_spawn (by simp)
      (by simp [Session.start]), Option.bind_some, Lts.run_cons, step_spawn (by simp)
      (by simp [Session.start])]
    rfl
  rw [duelEvents, Lts.run_append, Lts.run_append, hjoins, Option.bind_some, hshots,
    Option.bind_some, Lts.run_cons, step_lostConnection (by simp) List.not_mem_nil]
  rfl

/-- In the next tick the tenth shot kills player 2 and brings player 1 back. -/
theorem tick_abandoned : ∃ g, tick Rehash.front abandoned = some g ∧ 1 ∈ g.players.keys := by
  obtain ⟨players, hplayers⟩ := Option.isSome_iff_exists.mp
    (checkPlayerCollisions_isSome convexBorder_squareMap.1 (updatePositions abandoned).players)
  obtain ⟨⟨players', left⟩, hloop⟩ := Option.isSome_iff_exists.mp
    (projectileLoop_isSome convexBorder_squareMap.1 Rehash.front
      (abandoned.projectiles.map Projectile.advance) players)
  refine ⟨_, tick_eq_some.mpr ⟨players, players', left, hplayers, hloop, rfl⟩, ?_⟩
  have hsame := (onlyCentres_updatePositions abandoned).trans
    (onlyCentres_checkPlayerCollisions hplayers)
  have hkeys : players.keys = [2] := hsame.1
  have hstays : (players.val 2).toCircle = ⟨⟨60, 0⟩, 30⟩ := by
    have hcircle : (newlySpawned 2 (60, 0)).advance.toCircle = ⟨⟨60, 0⟩, 30⟩ := by
      rw [advance_circle_newlySpawned]
      norm_num [drawnPoint]
    have hfar : FarFromSquare (newlySpawned 2 (60, 0)).advance.toCircle := by
      rw [hcircle, FarFromSquare]
      norm_num
    have hsame : checkPlayerCollisions squareMap (updatePositions abandoned).players = some _ :=
      checkPlayerCollisions_alone (k := 2) rfl rfl (collideMap_squareMap hfar)
    obtain rfl := Option.some.inj (hplayers.symm.trans hsame)
    rw [UMap.val_set_self]
    exact hcircle
  have hprojectiles : abandoned.projectiles.map Projectile.advance
      = List.replicate (9 + 1) duelShot.advance := by
    simp [abandoned, deletePlayer]
  rw [hprojectiles] at hloop
  have howner : duelShot.advance.ownerId = 1 := rfl
  rw [← howner]
  refine owner_mem_of_barrage (k := 2) rfl 9 hloop ?_ ?_
  · have halive : (players.val 2).alive = true := (hsame.alive 2).trans rfl
    have hhit : checkCollisionCircle duelShot.advance.toCircle (players.val 2).toCircle = true := by
      rw [hstays, duelShot, advance_newlySpawned, checkCollisionCircle_iff, distance_sq]
      norm_num
    simp [Projectile.hitPlayer, hkeys, halive, hhit, howner]
  · rw [hsame.health]
    rfl

/-- The roster breaks in the tick after the owner of ten projectiles has left. -/
theorem phantom_player : ¬ ∀ (m : GameMap ℝ) (es : List HostEvent) (t : Session ℝ ℝ),
    Lts.run Session.step es (Session.start m) = some t → RosterOk t := by
  intro hroster
  obtain ⟨g, hg, hmem⟩ := tick_abandoned
  have htick : (⟨abandoned, [2, 1], [1]⟩ : Session ℝ ℝ).step (.tick Rehash.front)
      = some ⟨g, [2, 1], [1]⟩ := by
    simp [Session.step, hg]
  have hok := hroster squareMap (duelEvents ++ [.tick Rehash.front]) ⟨g, [2, 1], [1]⟩ (by
    rw [Lts.run_append, run_duelEvents, Option.bind_some, Lts.run_cons, htick]
    rfl)
  exact ((hok.1 1).mp hmem).2 (List.mem_singleton_self 1)

end PRShooter
