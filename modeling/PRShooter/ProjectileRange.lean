import PRShooter.ProjectilePath

/-!
# Projectiles and the border

A projectile that is inside a convex border when a tick starts is inside or within reach of an edge
after its step, and the tests remove it in the second case. So projectiles can only get out when
they are created: `shootProjectile` puts them one radius ahead of a player whose place and
direction it does not check. `ShotsStay` says that this does not happen.
-/

namespace PRShooter

/-! ## One step -/

/-- A step from inside the border ends inside or within reach of an edge. -/
theorem exists_edge_of_advance {m : GameMap ℝ} (hm : m.ConvexBorder) {p : Projectile ℝ}
    (hr : p.r = 4) (hunit : p.velocity.length = 1) (hin : p.centre.toPlane ∈ m.region)
    (hout : p.advance.centre.toPlane ∉ m.region) :
    ∃ e ∈ m.borderPolygon, checkCollisionSegment p.advance.toCircle e.1 e.2 = true := by
  have hr' : p.advance.r = 4 := hr
  refine exists_edge_of_leaves hm hin hout ?_
  rw [distance_advance hunit, hr']
  norm_num

/-- The next step of the projectile ends inside the border, or where the tests of a tick remove the
projectile. -/
def Projectile.Stays (m : GameMap ℝ) (p : Projectile ℝ) : Prop :=
  p.advance.centre.toPlane ∈ m.region ∨ p.advance.hitsObject m = true ∨
    ∃ e ∈ m.borderPolygon, checkCollisionSegment p.advance.toCircle e.1 e.2 = true

/-- Radius and velocity are those of a fired projectile, and the next step stays. -/
structure Projectile.InRange (m : GameMap ℝ) (p : Projectile ℝ) : Prop where
  r : p.r = 4
  unit : p.velocity.length = 1
  stays : p.Stays m

/-- A projectile that stays and passes the tests is inside. -/
theorem inside_of_clear {m : GameMap ℝ} (hm : m.ConvexBorder) {p : Projectile ℝ}
    (hstays : p.Stays m) (hclear : p.advance.Clear m) :
    p.advance.centre.toPlane ∈ m.region := by
  obtain ⟨hobject, edges, hedges, hmiss⟩ := hclear
  obtain rfl : m.borderPolygon = edges := Option.some.inj ((borderEdges_eq hm.1).symm.trans hedges)
  rcases hstays with hin | hhit | ⟨e, he, hhit⟩
  · exact hin
  · rw [hobject] at hhit
    cases hhit
  · rw [hmiss e he] at hhit
    cases hhit

theorem stays_of_inside {m : GameMap ℝ} (hm : m.ConvexBorder) {p : Projectile ℝ} (hr : p.r = 4)
    (hunit : p.velocity.length = 1) (hin : p.centre.toPlane ∈ m.region) : p.Stays m := by
  by_cases hout : p.advance.centre.toPlane ∈ m.region
  · exact .inl hout
  · exact .inr (.inr (exists_edge_of_advance hm hr hunit hin hout))

/-! ## Shots -/

/-- The projectile an alive player fires stays for its first step. The other events are free. -/
def ShotsStay (g : Game ℝ ℝ) : GameEvent ℝ ℝ → Prop
  | .shoot _ playerId => ∀ player, g.players.find? playerId = some player → player.alive = true →
      (player.projectile playerId).Stays g.gameMap
  | _ => True

theorem direction_length (player : Player ℝ ℝ) : player.direction.length = 1 := by
  have hsquares : square player.direction.x + square player.direction.y = 1 := by
    unfold Player.direction
    rw [square, square, ← sq, ← sq, cos_eq, sin_eq]
    exact Real.cos_sq_add_sin_sq player.orientationAngle
  unfold Point.length
  rw [hsquares, sqrt_eq, Real.sqrt_one]

theorem inRange_projectile {m : GameMap ℝ} {player : Player ℝ ℝ} {playerId : ℕ}
    (h : (player.projectile playerId).Stays m) : (player.projectile playerId).InRange m where
  r := by norm_num [Player.projectile, Projectile.new, Constants.projectileRadius]
  unit := direction_length player
  stays := h

/-! ## Runs -/

/-- The map has not changed, and every projectile is in range. -/
structure ProjectilesInRange (m : GameMap ℝ) (g : Game ℝ ℝ) : Prop where
  gameMap : g.gameMap = m
  inRange : ∀ p ∈ g.projectiles, p.InRange m

variable {m : GameMap ℝ} {g g' : Game ℝ ℝ}

/-- A tick of a game with projectiles in range leaves projectiles inside the border. -/
theorem inside_of_tick (hm : m.ConvexBorder) (hg : ProjectilesInRange m g) {ρ : Rehash ℕ}
    (h : tick ρ g = some g') : ∀ q ∈ g'.projectiles,
      q.centre.toPlane ∈ m.region ∧ q.r = 4 ∧ q.velocity.length = 1 := by
  obtain ⟨hsub, hclear⟩ := clear_of_tick h
  intro q hq
  obtain ⟨p, hp, rfl⟩ := List.mem_map.mp (hsub.subset hq)
  have hrange := hg.inRange p hp
  exact ⟨inside_of_clear hm hrange.stays (hg.gameMap ▸ hclear _ hq), hrange.r, hrange.unit⟩

theorem inRange_shoot (hg : ProjectilesInRange m g) {ρ : Rehash ℕ} {playerId : ℕ}
    (hok : ShotsStay g (.shoot ρ playerId)) :
    ProjectilesInRange m (shootProjectile ρ g playerId) := by
  simp only [shootProjectile]
  split_ifs with halive
  · exact ⟨hg.gameMap, hg.inRange⟩
  · refine ⟨hg.gameMap, fun p hp => ?_⟩
    rcases List.mem_append.mp hp with hp | hp
    · exact hg.inRange p hp
    · obtain rfl := List.mem_singleton.mp hp
      -- a key that `operator[]` inserts is not alive, so the shooter was there before
      by_cases hkey : playerId ∈ g.players.keys
      · simp only [Game.indexPlayer, UMap.index_of_mem ρ _ hkey] at halive ⊢
        refine inRange_projectile ?_
        rw [← hg.gameMap]
        exact hok _ (by rw [UMap.find?, if_pos hkey]) (by simpa using halive)
      · simp [Game.indexPlayer, UMap.val_index, hkey, Player.new] at halive

theorem inRange_step (hm : m.ConvexBorder) (hg : ProjectilesInRange m g) {e : GameEvent ℝ ℝ}
    (hok : ShotsStay g e) (h : g.step e = some g') : ProjectilesInRange m g' := by
  cases e with
  | connect ρ playerId =>
    obtain rfl := Option.some.inj h
    exact ⟨hg.gameMap, hg.inRange⟩
  | disconnect playerId =>
    obtain rfl := Option.some.inj h
    exact ⟨hg.gameMap, hg.inRange⟩
  | spawn ρ playerId draw =>
    simp only [Game.step] at h
    split_ifs at h
    obtain rfl := Option.some.inj h
    simp only [spawnPlayer]
    split_ifs <;> exact ⟨hg.gameMap, hg.inRange⟩
  | shoot ρ playerId =>
    obtain rfl := Option.some.inj h
    exact inRange_shoot hg hok
  | changeOrientation ρ playerId angle =>
    obtain rfl := Option.some.inj h
    exact ⟨hg.gameMap, hg.inRange⟩
  | changeMovement ρ playerId velocityX velocityY =>
    obtain rfl := Option.some.inj h
    unfold changePlayerMovement
    split_ifs <;> exact ⟨hg.gameMap, hg.inRange⟩
  | tick ρ =>
    have hinside := inside_of_tick hm hg h
    refine ⟨?_, fun q hq => ?_⟩
    · obtain ⟨_, _, _, -, -, rfl⟩ := tick_eq_some.mp h
      exact hg.gameMap
    · obtain ⟨hin, hr, hunit⟩ := hinside q hq
      exact ⟨hr, hunit, stays_of_inside hm hr hunit hin⟩

/-- **Projectiles stay inside.** In a run on a convex border in which every fired projectile stays
for its first step, each tick leaves projectiles only inside or on the border. -/
theorem inside_after_tick (m : GameMap ℝ) (hm : m.ConvexBorder) (g g' : Game ℝ ℝ)
    (hreach : Lts.Reach Game.step ShotsStay (Game.initial m) g) (ρ : Rehash ℕ)
    (htick : g.step (.tick ρ) = some g') : ∀ p ∈ g'.projectiles, p.centre.toPlane ∈ m.region := by
  have hinit : ProjectilesInRange m (Game.initial m : Game ℝ ℝ) :=
    ⟨rfl, fun p hp => absurd hp (List.not_mem_nil)⟩
  have hrange : ProjectilesInRange m g :=
    hreach.invariant hinit fun _ _ _ hI hok hstep => inRange_step hm hI hok hstep
  intro p hp
  exact (inside_of_tick hm hrange htick p hp).1

/-! ## A shot on the square -/

/-- The square after player 0 has joined and spawned. -/
def spawned (draw : ℤ × ℤ) : Game ℝ ℝ :=
  spawnPlayer Rehash.front (createNewPlayer Rehash.front (Game.initial squareMap) 0) 0 draw

/-- The square after players 0 and 1 have joined. -/
def joinedPair : Game ℝ ℝ := createNewPlayer Rehash.front
  (createNewPlayer Rehash.front (Game.initial squareMap) 0) 1

/-- Both have spawned. -/
def pair (draw₀ draw₁ : ℤ × ℤ) : Game ℝ ℝ :=
  spawnPlayer Rehash.front (spawnPlayer Rehash.front joinedPair 0 draw₀) 1 draw₁

theorem val_spawned (draw : ℤ × ℤ) : (spawned draw).players.val 0 = newlySpawned 0 draw := by
  simp [spawned, newlySpawned, spawnPlayer, createNewPlayer, Game.indexPlayer, Game.setPlayer,
    Game.initial, UMap.index, UMap.val_insert, Player.new]

theorem drawAllowed_squareMap {draw : ℤ × ℤ} (hx : -1000 ≤ draw.1 ∧ draw.1 ≤ 1000)
    (hy : -1000 ≤ draw.2 ∧ draw.2 ≤ 1000) : DrawAllowed squareMap draw := by
  simp only [DrawAllowed, squareMap, toInt_ofNat, toInt_neg_ofNat]
  exact ⟨hx, hy, rfl⟩

/-- The square after player 0 has joined, spawned and fired. -/
noncomputable def fired (draw : ℤ × ℤ) : Game ℝ ℝ := shootProjectile Rehash.front (spawned draw) 0

/-- The three events are a run in which every shot meets `ok`. -/
theorem reach_fired {ok : Game ℝ ℝ → GameEvent ℝ ℝ → Prop} {draw : ℤ × ℤ}
    (hdraw : DrawAllowed squareMap draw) (hconnect : ∀ g ρ playerId, ok g (.connect ρ playerId))
    (hspawn : ∀ g ρ playerId draw, ok g (.spawn ρ playerId draw))
    (hshoot : ok (spawned draw) (.shoot Rehash.front 0)) :
    Lts.Reach Game.step ok (Game.initial squareMap) (fired draw) := by
  refine ((Lts.Reach.refl.tail (hconnect _ Rehash.front 0) rfl).tail
    (hspawn _ Rehash.front 0 draw) ?_).tail hshoot rfl
  exact if_pos hdraw

/-- Nobody else is there to be hit, so a projectile that is far from the lines of the square after
its step is still there after the tick. -/
theorem tick_fired {draw : ℤ × ℤ}
    (hfar : FarFromSquare ((newlySpawned 0 draw).projectile 0).advance.toCircle) :
    ∃ g', (fired draw).step (.tick Rehash.front) = some g' ∧
      g'.projectiles = [((newlySpawned 0 draw).projectile 0).advance] := by
  obtain ⟨players, hplayers⟩ := Option.isSome_iff_exists.mp
    (checkPlayerCollisions_isSome convexBorder_squareMap.1
      (updatePositions (fired draw)).players)
  have hkeys : players.keys = [0] := (onlyCentres_checkPlayerCollisions hplayers).1
  have hnone : ((newlySpawned 0 draw).projectile 0).advance.hitPlayer players = none := by
    simp [Projectile.hitPlayer, hkeys, Player.projectile, Projectile.advance, Projectile.new]
  refine ⟨_, tick_eq_some.mpr ⟨players, players, _, hplayers, ?_, rfl⟩, rfl⟩
  exact projectileLoop_cons_eq (checkProjectileCollisions_of_clear (clear_squareMap hfar) hnone) rfl

theorem farFromSquare_fired {draw : ℤ × ℤ} (h : draw = (0, 0) ∨ draw = (1000, 0)) :
    FarFromSquare ((newlySpawned 0 draw).projectile 0).advance.toCircle := by
  unfold FarFromSquare
  rw [advance_newlySpawned]
  rcases h with rfl | rfl <;> norm_num

/-- A shot from the middle of the square stays inside. -/
theorem inside_after_tick_fired : ∃ g', (fired (0, 0)).step (.tick Rehash.front) = some g' ∧
    g'.projectiles.length = 1 ∧ ∀ p ∈ g'.projectiles, p.centre.toPlane ∈ squareMap.region := by
  obtain ⟨g', htick, hprojectiles⟩ := tick_fired (farFromSquare_fired (.inl rfl))
  refine ⟨g', htick, by rw [hprojectiles]; rfl, ?_⟩
  refine inside_after_tick squareMap convexBorder_squareMap (fired (0, 0)) g'
    (reach_fired ?_ (fun _ _ _ => trivial) (fun _ _ _ _ => trivial) ?_) Rehash.front htick
  · exact drawAllowed_squareMap (by norm_num) (by norm_num)
  · intro player hplayer _
    obtain rfl : newlySpawned 0 (0, 0) = player := by
      rw [← val_spawned (0, 0)]
      exact Option.some.inj hplayer
    refine .inl (mem_region_squareMap.mpr ?_)
    rw [advance_newlySpawned]
    norm_num

/-- A player who spawns on the border and fires at once has a projectile outside after the tick. -/
theorem projectile_escapes : ¬ ∀ (m : GameMap ℝ), m.ConvexBorder → ∀ g g' : Game ℝ ℝ,
    Lts.Reach Game.step Lts.Any (Game.initial m) g → ∀ ρ, g.step (.tick ρ) = some g' →
      ∀ p ∈ g'.projectiles, p.centre.toPlane ∈ m.region := by
  intro hinside
  obtain ⟨g', htick, hprojectiles⟩ := tick_fired (farFromSquare_fired (.inr rfl))
  have hmem := hinside squareMap convexBorder_squareMap (fired (1000, 0)) g'
    (reach_fired (drawAllowed_squareMap (by norm_num) (by norm_num)) (fun _ _ _ => trivial)
      (fun _ _ _ _ => trivial) trivial) Rehash.front htick
    ((newlySpawned 0 (1000, 0)).projectile 0).advance
    (by rw [hprojectiles]; exact List.mem_singleton_self _)
  rw [mem_region_squareMap, advance_newlySpawned] at hmem
  norm_num at hmem

end PRShooter
